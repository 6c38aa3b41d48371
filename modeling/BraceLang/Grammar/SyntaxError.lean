import BraceLang.Diagnostic
import BraceLang.Grammar.Parser

/-!
# Syntax errors

A failure becomes an error of a whole token list: it is located at the start of its token or, past
the end of the input, where the last token stops.
-/

namespace BraceLang.Grammar

def Nest.text : Nest → String
  | statement => "Statement"
  | expression => "Expression"

def Place.text : Place → String
  | expression => "expression"
  | arrayIndex => "array index"
  | arguments => "function arguments"
  | arraySize => "array size"
  | arrayDeclaration => "array declaration"
  | variableDeclaration => "variable declaration"
  | forWord => "'for'"
  | forCondition => "for condition"
  | forClauses => "for clauses"
  | whileWord => "'while'"
  | whileCondition => "while condition"
  | ifWord => "'if'"
  | ifCondition => "if condition"
  | returnWord => "return"

def Cause.message : Cause → String
  | endOfInput => "Cannot peek beyond end of input"
  | tooDeep nest => s!"{nest.text} nested too deeply"
  | mismatch expected actual =>
    s!"Expected token type '{expected.label}', but got '{actual.label}'"
  | missing expected place =>
    "Expected '" ++ expected.spelling?.getD "" ++ "' after " ++ place.text
  | noAtom kind => s!"Unexpected token type '{kind.label}' for atom"
  | integerRange lexeme => s!"Integer literal '{lexeme}' is out of range"
  | malformedFloat lexeme => s!"Malformed float literal '{lexeme}'"
  | trailing token => s!"Unexpected trailing token {token.text} after expression"
  | other message => message

structure SyntaxError where
  cause : Cause
  location : Location
  token : Option Token
deriving DecidableEq, Repr

namespace SyntaxError

def message (e : SyntaxError) : String :=
  e.cause.message

def diagnostic (e : SyntaxError) : Diagnostic :=
  ⟨.parser, e.location, e.message⟩

end SyntaxError

/-- Where a list of tokens ends. An empty list ends at the origin. -/
def endLocation (tokens : List Token) : Location :=
  (tokens.getLast?.map Token.stop).getD Location.origin

def Failure.within (tokens : List Token) (e : Failure) : SyntaxError :=
  ⟨e.cause, (e.token.map Token.start).getD (endLocation tokens), e.token⟩

end BraceLang.Grammar
