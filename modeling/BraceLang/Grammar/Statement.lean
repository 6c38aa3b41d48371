import BraceLang.Grammar.Expression

/-!
# Statements, functions and programs

    program     ::= function*
    function    ::= NAME NAME "(" params? ")" block
    params      ::= NAME NAME ("," NAME NAME)*
    statement   ::= for | while | if | return | block | ";" | declaration | expression ";"
    declaration ::= NAME NAME ("[" INT "]" | ("=" expression)?) ";"
    for         ::= "for" "(" start expression ";" expression ")" statement
    start       ::= NAME NAME ("=" expression)? ";" | ";" | expression ";"
    while       ::= "while" "(" expression ")" statement
    if          ::= "if" "(" expression ")" statement ("else" statement)?
    return      ::= "return" expression? ";"
    block       ::= "{" statement* "}"

Two names in a row start a declaration. An `else` belongs to the nearest `if` that is open. A `for`
loop is read as the blocks and the `while` loop that it stands for (`forAsWhile`).
-/

namespace BraceLang.Grammar

/-- What `for (start condition; increment) body` stands for:
`{ start while (condition) { { body } increment; } }`. -/
def forAsWhile (start : Stmt) (condition increment : Expr) (body : Stmt) : Stmt :=
  .block [start, .loop condition (.block [.block [body], .expr increment])]

namespace Parser

section Statements

variable (inner : Nested)

def statement : Parser Stmt := do
  enter .statement
  inner.statement

def expressionStatement : Parser Stmt := do
  enter .expressionStatement
  let e ← expression inner
  let _ ← require .semicolon .expression
  pure (.expr e)

def initializer? : Parser (Option Expr) := do
  if (← current) = .equals then
    let _ ← expect .equals
    some <$> expression inner
  else pure none

def variableEnd (type name : Token) : Parser Stmt := do
  let init ← initializer? inner
  let _ ← require .semicolon .variableDeclaration
  pure (.var type name init)

def arrayEnd (type name : Token) : Parser Stmt := do
  let _ ← expect .leftBracket
  let size ← integer
  let _ ← require .rightBracket .arraySize
  let _ ← require .semicolon .arrayDeclaration
  pure (.array type name size)

def declaration : Parser Stmt := do
  enter .declaration
  let type ← expect .identifier
  let name ← expect .identifier
  if (← current) = .leftBracket then arrayEnd type name else variableEnd inner type name

def variableStart : Parser Stmt := do
  let type ← expect .identifier
  let name ← expect .identifier
  variableEnd inner type name

def emptyStatement : Parser Stmt := do
  let _ ← expect .semicolon
  pure .empty

def atDeclaration : Parser Bool := do
  if (← current) = .identifier then return (← following) = .identifier else pure false

def forStart : Parser Stmt := do
  enter .forStart
  if ← atDeclaration then variableStart inner
  else if (← current) = .semicolon then emptyStatement
  else expressionStatement inner

def forLoop : Parser Stmt := do
  enter .forLoop
  let _ ← expect .reservedFor
  let _ ← require .leftParen .forWord
  let start ← forStart inner
  let condition ← expression inner
  let _ ← require .semicolon .forCondition
  let increment ← expression inner
  let _ ← require .rightParen .forClauses
  let body ← statement inner
  pure (forAsWhile start condition increment body)

def condition (word closed : Place) : Parser Expr := do
  let _ ← require .leftParen word
  let e ← expression inner
  let _ ← require .rightParen closed
  pure e

def whileLoop : Parser Stmt := do
  enter .whileLoop
  let _ ← expect .reservedWhile
  let e ← condition inner .whileWord .whileCondition
  .loop e <$> statement inner

def conditional : Parser Stmt := do
  enter .conditional
  let _ ← expect .reservedIf
  let e ← condition inner .ifWord .ifCondition
  let thenBranch ← statement inner
  if (← current?) = some .reservedElse then
    let _ ← expect .reservedElse
    .ifElse e thenBranch <$> statement inner
  else pure (.ifThen e thenBranch)

def returned? : Parser (Option Expr) := do
  if (← current) = .semicolon then pure none else some <$> expression inner

def result : Parser Stmt := do
  enter .result
  let keyword ← expect .reservedReturn
  let value ← returned? inner
  let _ ← require .semicolon .returnWord
  pure (.result keyword value)

def insideBlock : Parser Bool := do
  return (← current) ≠ .rightBrace

def block : Parser (List Stmt) := do
  enter .block
  let _ ← expect .leftBrace
  let statements ← many insideBlock (statement inner)
  let _ ← expect .rightBrace
  pure statements

def dispatch : Parser Stmt := do
  match ← current with
  | .identifier =>
    if (← following) = .identifier then declaration inner else expressionStatement inner
  | .leftBrace => .block <$> block inner
  | .semicolon => emptyStatement
  | .reservedFor => forLoop inner
  | .reservedWhile => whileLoop inner
  | .reservedIf => conditional inner
  | .reservedReturn => result inner
  | _ => expressionStatement inner

end Statements

end Parser

namespace Nested

/-- The parsers under a given number of further levels of nesting. With no level left each of them
fails before it looks at a token. -/
def within : Nat → Nested
  | 0 =>
    { statement := Parser.fail (.tooDeep .statement)
      assignment := Parser.fail (.tooDeep .expression)
      unary := Parser.fail (.tooDeep .expression)
      power := Parser.fail (.tooDeep .expression) }
  | room + 1 =>
    let inner := within room
    { statement := (Parser.dispatch inner).deeper
      assignment := (Parser.assignment inner).deeper
      unary := (Parser.unary inner).deeper
      power := (Parser.power inner).deeper }

end Nested

namespace Parser

variable (inner : Nested)

def param : Parser Param := do
  let type ← expect .identifier
  let name ← expect .identifier
  pure ⟨type, name⟩

def furtherParam : Parser Param := do
  let _ ← expect .comma
  param

def params : Parser (List Param) := do
  enter .params
  let first ← param
  let rest ← many atComma furtherParam
  pure (first :: rest)

def paramList : Parser (List Param) := do
  if (← current) = .rightParen then pure [] else params

def function : Parser Function := do
  enter .function
  let returnType ← expect .identifier
  let name ← expect .identifier
  let _ ← expect .leftParen
  let ps ← paramList
  let _ ← expect .rightParen
  let body ← block inner
  pure ⟨returnType, name, ps, body⟩

def moreTokens : Parser Bool := do
  return (← current?).isSome

def program : Parser Program := do
  enter .program
  let functions ← many moreTokens (function inner)
  pure ⟨functions⟩

/-- An expression after which no token is left. -/
def wholeExpression : Parser Expr := do
  let e ← expression inner
  fun ts =>
    match ts.head? with
    | some t => fail (.trailing t) ts
    | none => ⟨.ok e, ts, []⟩

end Parser

end BraceLang.Grammar
