import BraceLang.Token

/-!
# Cutting a source text into chunks

A source text is the concatenation of its chunks (`Chunk.join_chunks`), each a token, a blank, a
comment or a stretch that belongs to no token. Where tokens start, the chunk is the longest of them,
except that two slashes always start a comment. So a chunk is known from its first character and a
look at what follows.
-/

namespace BraceLang

inductive Fault where
  | strayBang
  | unterminatedString
  | invalidCharacter (c : Char)
  | extraPoint
deriving DecidableEq, Repr

namespace Fault

def message : Fault → String
  | strayBang => "Expected '=' after '!'"
  | unterminatedString => "Unterminated string literal"
  | invalidCharacter c => s!"Invalid character '{c}'"
  | extraPoint => "Float literals must only contain one decimal point"

end Fault

inductive Shape where
  | blank
  | comment
  | token (kind : Kind)
  | fault (what : Fault)
deriving DecidableEq, Repr

structure Chunk where
  shape : Shape
  text : List Char
deriving DecidableEq, Repr

def isBlank (c : Char) : Bool :=
  c = ' ' || c = '\t' || c = '\n' || c = '\r'

/-- Letters are those of ASCII, as are the digits of `Char.isDigit`. -/
def isWordStart (c : Char) : Bool :=
  c.isAlpha || c = '_'

def isWordPart (c : Char) : Bool :=
  c.isAlphanum || c = '_'

def isDigitOrPoint (c : Char) : Bool :=
  c.isDigit || c = '.'

def staysInString (c : Char) : Bool :=
  c ≠ '"' && c ≠ '\n'

def Kind.ofMark? : Char → Option Kind
  | ',' => some .comma
  | ';' => some .semicolon
  | '(' => some .leftParen
  | ')' => some .rightParen
  | '{' => some .leftBrace
  | '}' => some .rightBrace
  | '[' => some .leftBracket
  | ']' => some .rightBracket
  | '=' => some .equals
  | '<' => some .lessThan
  | '>' => some .greaterThan
  | '+' => some .plus
  | '-' => some .minus
  | '*' => some .star
  | '/' => some .slash
  | '^' => some .caret
  | '%' => some .percent
  | _ => none

def Kind.ofMarkEquals? : Char → Option Kind
  | '=' => some .equalsEquals
  | '!' => some .bangEquals
  | '<' => some .lessThanEquals
  | '>' => some .greaterThanEquals
  | _ => none

def Kind.ofWord (word : List Char) : Kind :=
  if word = "return".toList then .reservedReturn
  else if word = "if".toList then .reservedIf
  else if word = "else".toList then .reservedElse
  else if word = "while".toList then .reservedWhile
  else if word = "for".toList then .reservedFor
  else .identifier

namespace Chunk

/-- A number runs over its digits and, if a point follows them, over all further digits and
points. -/
def number (rest : List Char) : Kind × Nat :=
  let whole := rest.takeWhile Char.isDigit
  if (rest.drop whole.length).head? = some '.' then
    (.floatLiteral, (rest.takeWhile isDigitOrPoint).length)
  else (.intLiteral, whole.length)

/-- A string ends at the next quote of its own line. -/
def quoted (rest : List Char) : Shape × Nat :=
  let body := rest.takeWhile staysInString
  if (rest.drop body.length).head? = some '"' then (.token .stringLiteral, body.length + 1)
  else (.fault .unterminatedString, body.length)

def mark (c : Char) (rest : List Char) : Shape × Nat :=
  match if rest.head? = some '=' then Kind.ofMarkEquals? c else none with
  | some kind => (.token kind, 1)
  | none =>
    match Kind.ofMark? c with
    | some kind => (.token kind, 0)
    | none => (.fault (if c = '!' then .strayBang else .invalidCharacter c), 0)

/-- The shape of the chunk that starts with `c`, and how many characters of `rest` belong to
it. -/
def extent (c : Char) (rest : List Char) : Shape × Nat :=
  if isBlank c then (.blank, 0)
  else if c.isDigit then
    let (kind, n) := number rest
    (.token kind, n)
  else if isWordStart c then
    let tail := rest.takeWhile isWordPart
    (.token (Kind.ofWord (c :: tail)), tail.length)
  else if c = '"' then quoted rest
  else if c = '/' ∧ rest.head? = some '/' then
    (.comment, (rest.takeWhile (· ≠ '\n')).length)
  else mark c rest

/-- The chunks of a text whose first characters, `skip` many, belong to an earlier chunk. -/
def chunksAfter : Nat → List Char → List Chunk
  | _, [] => []
  | skip + 1, _ :: rest => chunksAfter skip rest
  | 0, c :: rest =>
    let (shape, n) := extent c rest
    ⟨shape, c :: rest.take n⟩ :: chunksAfter n rest

end Chunk

open Chunk in
def chunks (source : List Char) : List Chunk :=
  chunksAfter 0 source

namespace Chunk

theorem chunksAfter_eq_drop (n : Nat) (source : List Char) :
    chunksAfter n source = chunks (source.drop n) := by
  induction source generalizing n with
  | nil => cases n <;> rfl
  | cons c rest ih =>
    cases n with
    | zero => rfl
    | succ n => exact ih n

@[simp] theorem chunks_nil : chunks [] = [] := rfl

theorem chunks_cons (c : Char) (rest : List Char) :
    chunks (c :: rest) =
      ⟨(extent c rest).1, c :: rest.take (extent c rest).2⟩ ::
        chunks (rest.drop (extent c rest).2) := by
  rw [← chunksAfter_eq_drop]
  rfl

/-- No character is lost between chunks and none belongs to two of them. -/
theorem join_chunks (source : List Char) : (chunks source).flatMap Chunk.text = source := by
  suffices h : ∀ n, ((chunksAfter n source).flatMap Chunk.text) = source.drop n from h 0
  induction source with
  | nil => intro n; cases n <;> rfl
  | cons c rest ih =>
    intro n
    cases n with
    | zero => simp [chunksAfter, ih]
    | succ n => exact ih n

end Chunk

end BraceLang
