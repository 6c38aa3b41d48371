import BraceLang.Token

/-!
# Parsers over tokens

A parser reads tokens from the front of a list. It either builds a value or fails for a cause; in
both cases it says which tokens are left, and it notes the steps it took: the productions it entered
and the levels of nesting it opened and closed. A parser never goes back: what is left is always a
tail of what it was given.

A repetition runs on the list of tokens that it starts from. Each round uses up a token, so there
are at most as many rounds as there are tokens.
-/

namespace BraceLang.Grammar

inductive Production where
  | program | function | params
  | statement | block | expressionStatement | declaration
  | forLoop | forStart | whileLoop | conditional | result
  | expression | assignment | equality | comparison | sum | product | unary | power | atom
  | integer | float | string | index | call
deriving DecidableEq, Repr

inductive Step where
  | enter (rule : Production)
  | descend
  | ascend
deriving DecidableEq, Repr

inductive Nest where
  | statement
  | expression
deriving DecidableEq, Repr

/-- What a mark that is missing should have followed. -/
inductive Place where
  | expression | arrayIndex | arguments
  | arraySize | arrayDeclaration | variableDeclaration
  | forWord | forCondition | forClauses
  | whileWord | whileCondition | ifWord | ifCondition | returnWord
deriving DecidableEq, Repr

/-- Why tokens are not a sentence of the grammar. `other` carries a text made elsewhere. -/
inductive Cause where
  | endOfInput
  | tooDeep (nest : Nest)
  | mismatch (expected actual : Kind)
  | missing (expected : Kind) (place : Place)
  | noAtom (kind : Kind)
  | integerRange (lexeme : String)
  | malformedFloat (lexeme : String)
  | trailing (token : Token)
  | other (message : String)
deriving DecidableEq, Repr

/-- A failure points at a token, unless all tokens were used up. -/
structure Failure where
  cause : Cause
  token : Option Token
deriving DecidableEq, Repr

structure Outcome (α : Type) where
  result : Except Failure α
  rest : List Token
  steps : List Step

def Parser (α : Type) : Type :=
  List Token → Outcome α

namespace Parser

variable {α β : Type}

protected def pure (a : α) : Parser α :=
  fun ts => ⟨.ok a, ts, []⟩

protected def bind (p : Parser α) (f : α → Parser β) : Parser β :=
  fun ts =>
    match p ts with
    | ⟨.ok a, rest, steps⟩ =>
      let later := f a rest
      { later with steps := steps ++ later.steps }
    | ⟨.error e, rest, steps⟩ => ⟨.error e, rest, steps⟩

protected def map (f : α → β) (p : Parser α) : Parser β :=
  fun ts =>
    let o := p ts
    ⟨o.result.map f, o.rest, o.steps⟩

instance : Monad Parser where
  pure := Parser.pure
  bind := Parser.bind
  map := Parser.map

@[simp] theorem pure_apply (a : α) (ts : List Token) :
    (Pure.pure a : Parser α) ts = ⟨.ok a, ts, []⟩ := rfl

theorem bind_apply_of_ok {p : Parser α} (f : α → Parser β) {ts rest : List Token} {a : α}
    {steps : List Step} (h : p ts = ⟨.ok a, rest, steps⟩) :
    (p >>= f) ts = ⟨(f a rest).result, (f a rest).rest, steps ++ (f a rest).steps⟩ := by
  change Parser.bind p f ts = _
  rw [Parser.bind, h]

theorem bind_apply_of_error {p : Parser α} (f : α → Parser β) {ts rest : List Token}
    {e : Failure} {steps : List Step} (h : p ts = ⟨.error e, rest, steps⟩) :
    (p >>= f) ts = ⟨.error e, rest, steps⟩ := by
  change Parser.bind p f ts = _
  rw [Parser.bind, h]

@[simp] theorem map_apply (f : α → β) (p : Parser α) (ts : List Token) :
    (f <$> p) ts = ⟨(p ts).result.map f, (p ts).rest, (p ts).steps⟩ := rfl

def failAt (token : Option Token) (cause : Cause) : Parser α :=
  fun ts => ⟨.error ⟨cause, token⟩, ts, []⟩

def fail (cause : Cause) : Parser α :=
  fun ts => failAt ts.head? cause ts

def enter (rule : Production) : Parser Unit :=
  fun ts => ⟨.ok (), ts, [.enter rule]⟩

def deeper (p : Parser α) : Parser α :=
  fun ts =>
    let inside := p ts
    { inside with steps := .descend :: inside.steps ++ [.ascend] }

def current? : Parser (Option Kind) :=
  fun ts => ⟨.ok (ts.head?.map Token.kind), ts, []⟩

def following? : Parser (Option Kind) :=
  fun ts => ⟨.ok (ts[1]?.map Token.kind), ts, []⟩

def current : Parser Kind := do
  match ← current? with
  | some kind => pure kind
  | none => fail .endOfInput

/-- The kind of the token after the current one, which has to be there. If it is not, the failure is
at the current token. -/
def following : Parser Kind := do
  match ← following? with
  | some kind => pure kind
  | none => fail .endOfInput

def take (expected : Kind) (cause : Kind → Cause) : Parser Token
  | [] => fail .endOfInput []
  | t :: rest => if t.kind = expected then ⟨.ok t, rest, []⟩ else fail (cause t.kind) (t :: rest)

def expect (expected : Kind) : Parser Token :=
  take expected (.mismatch expected)

def require (expected : Kind) (place : Place) : Parser Token :=
  take expected fun _ => .missing expected place

theorem take_of_kind {t : Token} (rest : List Token) {expected : Kind} (cause : Kind → Cause)
    (h : t.kind = expected) : take expected cause (t :: rest) = ⟨.ok t, rest, []⟩ := by
  rw [take, if_pos h]

/-- Takes the current token if its kind has a meaning in the table. -/
def accept? (table : Kind → Option β) : Parser (Option (β × Token))
  | [] => ⟨.ok none, [], []⟩
  | t :: rest =>
    match table t.kind with
    | some b => ⟨.ok (some (b, t)), rest, []⟩
    | none => ⟨.ok none, t :: rest, []⟩

/-- Items for as long as the test says so, at most as many as there are tokens in the bound. -/
def manyUpTo (test : Parser Bool) (item : Parser α) : List Token → Parser (List α)
  | [] => do
    let _ ← test
    pure []
  | _ :: bound => do
    if ← test then
      let a ← item
      (a :: ·) <$> manyUpTo test item bound
    else pure []

def many (test : Parser Bool) (item : Parser α) : Parser (List α) :=
  fun ts => manyUpTo test item ts ts

/-- Extends a value to the right for as long as the current token is in the table, at most as often
as there are tokens in the bound. -/
def extendUpTo (table : Kind → Option β) (operand : Parser α) (join : β → Token → α → α → α) :
    List Token → α → Parser α
  | [], lhs => pure lhs
  | _ :: bound, lhs => do
    match ← accept? table with
    | none => pure lhs
    | some (op, t) =>
      let rhs ← operand
      extendUpTo table operand join bound (join op t lhs rhs)

def extend (table : Kind → Option β) (operand : Parser α) (join : β → Token → α → α → α)
    (lhs : α) : Parser α :=
  fun ts => extendUpTo table operand join ts lhs ts

def chain (table : Kind → Option β) (operand : Parser α) (join : β → Token → α → α → α) :
    Parser α := do
  let lhs ← operand
  extend table operand join lhs

end Parser

end BraceLang.Grammar
