import BraceLang.Grammar.Statement
import BraceLang.Grammar.SyntaxError

/-!
# Parsing a list of tokens

The entry points: a program, an expression, and a session that parses programs from one list again
and again. After an error a session stays at the token that could not be used.

A session keeps no level of nesting. Each call opens its levels from zero, and that it has closed
them all when it ends, also in an error, is a fact about the steps it makes (`Step`), which follow
the level up and down.
-/

namespace BraceLang.Grammar

def maxNesting : Nat := 256

def Outcome.answer {α : Type} (tokens : List Token) (o : Outcome α) : Except SyntaxError α :=
  o.result.mapError (Failure.within tokens)

def programParser (limit : Nat) : Parser Program :=
  Parser.program (Nested.within limit)

def expressionParser (limit : Nat) : Parser Expr :=
  Parser.wholeExpression (Nested.within limit)

def parseProgram (tokens : List Token) : Except SyntaxError Program :=
  (programParser maxNesting tokens).answer tokens

def parseExpression (tokens : List Token) : Except SyntaxError Expr :=
  (expressionParser maxNesting tokens).answer tokens

structure Parsed where
  program : Option Program
  diagnostics : List Diagnostic

def Parsed.hadError (parsed : Parsed) : Bool :=
  !parsed.diagnostics.isEmpty

def parse (tokens : List Token) : Parsed :=
  match parseProgram tokens with
  | .ok program => ⟨some program, []⟩
  | .error e => ⟨none, [e.diagnostic]⟩

/-- A list of tokens and the part of it that is still to be read. -/
structure Session where
  tokens : List Token
  rest : List Token

namespace Session

def start (tokens : List Token) : Session :=
  ⟨tokens, tokens⟩

def position (s : Session) : Nat :=
  s.tokens.length - s.rest.length

def outcome (s : Session) : Outcome Program :=
  programParser maxNesting s.rest

def answer (s : Session) : Except SyntaxError Program :=
  s.outcome.answer s.tokens

def next (s : Session) : Session :=
  ⟨s.tokens, s.outcome.rest⟩

def answers : Nat → Session → List (Except SyntaxError Program)
  | 0, _ => []
  | calls + 1, s => s.answer :: answers calls s.next

end Session

end BraceLang.Grammar
