import BraceLang.Lexed

/-!
# Diagnostics

One report for the user: which stage noticed what, and where.
-/

namespace BraceLang

inductive Stage where
  | lexer
  | parser
deriving DecidableEq, Repr

def Stage.label : Stage → String
  | lexer => "lexer"
  | parser => "parser"

structure Diagnostic where
  stage : Stage
  location : Location
  message : String
deriving DecidableEq, Repr

def Diagnostic.text (d : Diagnostic) : String :=
  s!"{d.stage.label}: error: {d.location.text}: {d.message}"

def LexicalError.diagnostic (e : LexicalError) : Diagnostic :=
  ⟨.lexer, e.location, e.fault.message⟩

def Lexed.diagnostics (lexed : Lexed) : List Diagnostic :=
  lexed.errors.map LexicalError.diagnostic

end BraceLang
