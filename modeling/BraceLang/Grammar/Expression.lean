import BraceLang.Tree
import BraceLang.Grammar.Parser

/-!
# Expressions

One parser per level of precedence, from assignment, which binds loosest, to atoms:

    expression ::= assignment
    assignment ::= equality ("=" assignment)?
    equality   ::= comparison (("==" | "!=") comparison)*
    comparison ::= sum (("<" | "<=" | ">" | ">=") sum)*
    sum        ::= product (("+" | "-") product)*
    product    ::= unary (("*" | "/" | "%") unary)*
    unary      ::= ("+" | "-") unary | power
    power      ::= atom ("^" power)?
    atom       ::= INT | FLOAT | STRING | NAME | NAME "[" expression "]"
                 | NAME "(" (expression ("," expression)*)? ")" | "(" expression ")"

Every recursion in the grammar, of expressions as of statements, opens a level of nesting. So the
parsers are written over those one level down (`Nested`), and the number of levels that may still be
opened is all that the recursion runs on.
-/

namespace BraceLang.Grammar

/-- The parsers that open a level of nesting. -/
structure Nested where
  statement : Parser Stmt
  assignment : Parser Expr
  unary : Parser Expr
  power : Parser Expr

def assignmentOp? : Kind → Option BinaryOp
  | .equals => some .assign
  | _ => none

def equalityOp? : Kind → Option BinaryOp
  | .equalsEquals => some .eq
  | .bangEquals => some .ne
  | _ => none

def comparisonOp? : Kind → Option BinaryOp
  | .lessThan => some .lt
  | .lessThanEquals => some .le
  | .greaterThan => some .gt
  | .greaterThanEquals => some .ge
  | _ => none

def sumOp? : Kind → Option BinaryOp
  | .plus => some .add
  | .minus => some .sub
  | _ => none

def productOp? : Kind → Option BinaryOp
  | .star => some .mul
  | .slash => some .div
  | .percent => some .mod
  | _ => none

def unaryOp? : Kind → Option UnaryOp
  | .plus => some .plus
  | .minus => some .neg
  | _ => none

def powerOp? : Kind → Option BinaryOp
  | .caret => some .pow
  | _ => none

namespace Parser

/-- The text between the quotes of a string, or the whole text if it has not two of them. -/
def unquote (lexeme : String) : String :=
  match lexeme.toList with
  | '"' :: rest => if rest.getLast? = some '"' then String.ofList rest.dropLast else lexeme
  | _ => lexeme

def integer : Parser IntLiteral := do
  enter .integer
  let t ← expect .intLiteral
  match Numeral.readInteger? t.lexeme.toList with
  | some value => pure ⟨value, t⟩
  | none => failAt (some t) (.integerRange t.lexeme)

def float : Parser Expr := do
  enter .float
  let t ← expect .floatLiteral
  match Numeral.Binary64.read? t.lexeme.toList with
  | some value => pure (.float value t)
  | none => failAt (some t) (.malformedFloat t.lexeme)

def string : Parser Expr := do
  enter .string
  let t ← expect .stringLiteral
  pure (.string (unquote t.lexeme) t)

variable (inner : Nested)

def expression : Parser Expr := do
  enter .expression
  inner.assignment

def index : Parser Expr := do
  enter .index
  let name ← expect .identifier
  let _ ← expect .leftBracket
  let place ← expression inner
  let _ ← require .rightBracket .arrayIndex
  pure (.index name place)

def furtherArgument : Parser Expr := do
  let _ ← expect .comma
  expression inner

def atComma : Parser Bool := do
  return (← current) = .comma

def arguments : Parser (List Expr) := do
  if (← current) = .rightParen then pure []
  else
    let first ← expression inner
    let rest ← many atComma (furtherArgument inner)
    pure (first :: rest)

def call : Parser Expr := do
  enter .call
  let name ← expect .identifier
  let _ ← expect .leftParen
  let args ← arguments inner
  let _ ← require .rightParen .arguments
  pure (.call name args)

def named : Parser Expr := do
  match ← following? with
  | some .leftBracket => index inner
  | some .leftParen => call inner
  | _ => .var <$> expect .identifier

def parenthesized : Parser Expr := do
  let _ ← expect .leftParen
  let e ← expression inner
  let _ ← require .rightParen .expression
  pure e

def atom : Parser Expr := do
  enter .atom
  match ← current with
  | .intLiteral => .int <$> integer
  | .floatLiteral => float
  | .stringLiteral => string
  | .identifier => named inner
  | .leftParen => parenthesized inner
  | kind => fail (.noAtom kind)

def power : Parser Expr := do
  enter .power
  let lhs ← atom inner
  match ← accept? powerOp? with
  | some (op, t) => .binary op t lhs <$> inner.power
  | none => pure lhs

def unary : Parser Expr := do
  enter .unary
  match ← accept? unaryOp? with
  | some (op, t) => .unary op t <$> inner.unary
  | none => power inner

def product : Parser Expr := do
  enter .product
  chain productOp? (unary inner) .binary

def sum : Parser Expr := do
  enter .sum
  chain sumOp? (product inner) .binary

def comparison : Parser Expr := do
  enter .comparison
  chain comparisonOp? (sum inner) .binary

def equality : Parser Expr := do
  enter .equality
  chain equalityOp? (comparison inner) .binary

def assignment : Parser Expr := do
  enter .assignment
  let lhs ← equality inner
  match ← accept? assignmentOp? with
  | some (op, t) => .binary op t lhs <$> inner.assignment
  | none => pure lhs

end Parser

end BraceLang.Grammar
