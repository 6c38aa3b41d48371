import BraceLang.Location

/-!
# Tokens

A token is a piece of source text with its kind and its extent. Kinds with one spelling only
(`Kind.spelling?`) are the punctuation marks, the operators and the five reserved words.
-/

namespace BraceLang

inductive Kind where
  | comma | semicolon
  | leftParen | rightParen | leftBrace | rightBrace | leftBracket | rightBracket
  | equals | equalsEquals | bangEquals
  | lessThan | lessThanEquals | greaterThan | greaterThanEquals
  | plus | minus | star | slash | caret | percent
  | intLiteral | floatLiteral | stringLiteral | identifier
  | reservedReturn | reservedIf | reservedElse | reservedWhile | reservedFor
deriving DecidableEq, Repr

namespace Kind

def label : Kind → String
  | comma => "COMMA"
  | semicolon => "SEMICOLON"
  | leftParen => "LEFT_PAREN"
  | rightParen => "RIGHT_PAREN"
  | leftBrace => "LEFT_BRACE"
  | rightBrace => "RIGHT_BRACE"
  | leftBracket => "LEFT_BRACKET"
  | rightBracket => "RIGHT_BRACKET"
  | equals => "EQUALS"
  | equalsEquals => "EQUALS_EQUALS"
  | bangEquals => "BANG_EQUALS"
  | lessThan => "LESS_THAN"
  | lessThanEquals => "LESS_THAN_EQUALS"
  | greaterThan => "GREATER_THAN"
  | greaterThanEquals => "GREATER_THAN_EQUALS"
  | plus => "PLUS"
  | minus => "MINUS"
  | star => "STAR"
  | slash => "SLASH"
  | caret => "CARET"
  | percent => "PERCENT"
  | intLiteral => "INT_LITERAL"
  | floatLiteral => "FLOAT_LITERAL"
  | stringLiteral => "STRING_LITERAL"
  | identifier => "IDENTIFIER"
  | reservedReturn => "RETURN"
  | reservedIf => "IF"
  | reservedElse => "ELSE"
  | reservedWhile => "WHILE"
  | reservedFor => "FOR"

def all : List Kind :=
  [comma, semicolon, leftParen, rightParen, leftBrace, rightBrace, leftBracket, rightBracket,
    equals, equalsEquals, bangEquals, lessThan, lessThanEquals, greaterThan, greaterThanEquals,
    plus, minus, star, slash, caret, percent, intLiteral, floatLiteral, stringLiteral, identifier,
    reservedReturn, reservedIf, reservedElse, reservedWhile, reservedFor]

theorem mem_all (k : Kind) : k ∈ all := by
  cases k <;> decide

def ofLabel? (name : String) : Option Kind :=
  all.find? fun k => k.label == name

def spelling? : Kind → Option String
  | comma => some ","
  | semicolon => some ";"
  | leftParen => some "("
  | rightParen => some ")"
  | leftBrace => some "\x7b"
  | rightBrace => some "\x7d"
  | leftBracket => some "["
  | rightBracket => some "]"
  | equals => some "="
  | equalsEquals => some "=="
  | bangEquals => some "!="
  | lessThan => some "<"
  | lessThanEquals => some "<="
  | greaterThan => some ">"
  | greaterThanEquals => some ">="
  | plus => some "+"
  | minus => some "-"
  | star => some "*"
  | slash => some "/"
  | caret => some "^"
  | percent => some "%"
  | reservedReturn => some "return"
  | reservedIf => some "if"
  | reservedElse => some "else"
  | reservedWhile => some "while"
  | reservedFor => some "for"
  | intLiteral | floatLiteral | stringLiteral | identifier => none

end Kind

/-- A token stretches from `start` to `stop`, the place just past its last character. -/
structure Token where
  kind : Kind
  start : Location
  stop : Location
  lexeme : String
deriving DecidableEq, Repr

namespace Token

/-- The kind and the lexeme between single quotes, in which nothing is escaped. -/
def text (t : Token) : String :=
  s!"{t.kind.label} '{t.lexeme}'"

def listing (t : Token) : String :=
  s!"{t.start.text}-{t.stop.text} {t.text}"

end Token

end BraceLang
