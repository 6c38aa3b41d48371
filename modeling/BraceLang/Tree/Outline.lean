import BraceLang.Numeral.Shortest
import BraceLang.Text.Outline
import BraceLang.Text.Quoted
import BraceLang.Tree

/-!
# Trees as outlines

The outline of a tree shows every node with all that it keeps: operators, values, and each token
with its kind, extent and lexeme.
-/

namespace BraceLang

open Text (Outline)

namespace Text.Outline

def number (n : Nat) : Outline :=
  .atom (toString n)

def quoted (text : String) : Outline :=
  .atom (quote text)

def none : Outline :=
  .atom "None"

def some (item : Outline) : Outline :=
  .tuple "Some" [item]

def option (item : Option Outline) : Outline :=
  item.elim none some

end Text.Outline

open Text.Outline (field record tuple number quoted option)

def Kind.title (k : Kind) : String :=
  String.join ((k.label.splitOn "_").map String.toLower |>.map String.capitalize)

def Location.outline (p : Location) : Outline :=
  record "SourceLocation" [field "line" (number p.line), field "column" (number p.column)]

def Token.outline (t : Token) : Outline :=
  record "Token"
    [field "kind" (.atom t.kind.title), field "begin" t.start.outline,
      field "end" t.stop.outline, field "lexeme" (quoted t.lexeme)]

def BinaryOp.title : BinaryOp → String
  | assign => "Assign"
  | eq => "Eq"
  | ne => "Ne"
  | lt => "Lt"
  | le => "Le"
  | gt => "Gt"
  | ge => "Ge"
  | add => "Add"
  | sub => "Sub"
  | mul => "Mul"
  | div => "Div"
  | mod => "Mod"
  | pow => "Pow"

def UnaryOp.title : UnaryOp → String
  | plus => "Plus"
  | neg => "Neg"

def IntLiteral.outline (l : IntLiteral) : Outline :=
  record "IntLiteral" [field "value" (.atom (toString l.value)), field "token" l.token.outline]

mutual

def Expr.outline : Expr → Outline
  | .int literal => tuple "IntLiteral" [literal.outline]
  | .float value token =>
    tuple "FloatLiteral"
      [record "FloatLiteral" [field "value" (.atom value.text), field "token" token.outline]]
  | .string value token =>
    tuple "StringLiteral"
      [record "StringLiteral" [field "value" (quoted value), field "token" token.outline]]
  | .var name => tuple "VarRef" [record "VarRefExpr" [field "name" name.outline]]
  | .index name place =>
    tuple "ArrayRef"
      [record "ArrayRefExpr" [field "name" name.outline, field "index" place.outline]]
  | .call name args =>
    tuple "FuncCall"
      [record "FuncCallExpr"
        [field "name" name.outline, field "args" (.list (Expr.eachOutline args))]]
  | .unary op operator operand =>
    tuple "UnaryOp"
      [record "UnaryOpExpr"
        [field "op" (.atom op.title), field "operator" operator.outline,
          field "operand" operand.outline]]
  | .binary op operator lhs rhs =>
    tuple "BinaryOp"
      [record "BinaryOpExpr"
        [field "op" (.atom op.title), field "operator" operator.outline,
          field "lhs" lhs.outline, field "rhs" rhs.outline]]

def Expr.eachOutline : List Expr → List Outline
  | [] => []
  | e :: rest => e.outline :: Expr.eachOutline rest

end

def variableOutline (type name : Token) (init : Option Expr) : Outline :=
  record "VarDecl"
    [field "var_type" type.outline, field "name" name.outline,
      field "init" (option (init.map Expr.outline))]

def blockOutline (statements : List Outline) : Outline :=
  record "CompoundStmt" [field "statements" (.list statements)]

def branchOutline (condition : Expr) (thenBranch : Outline) (elseBranch : Option Outline) :
    Outline :=
  tuple "If"
    [record "IfStmt"
      [field "condition" condition.outline, field "then_branch" thenBranch,
        field "else_branch" (option elseBranch)]]

mutual

def Stmt.outline : Stmt → Outline
  | .expr e => tuple "Expr" [e.outline]
  | .var type name init => tuple "VarDecl" [variableOutline type name init]
  | .array type name size =>
    tuple "ArrayDecl"
      [record "ArrayDecl"
        [field "elem_type" type.outline, field "name" name.outline, field "size" size.outline]]
  | .block statements => tuple "Compound" [blockOutline (Stmt.eachOutline statements)]
  | .loop condition body =>
    tuple "While"
      [record "WhileStmt" [field "condition" condition.outline, field "body" body.outline]]
  | .ifThen condition thenBranch => branchOutline condition thenBranch.outline none
  | .ifElse condition thenBranch elseBranch =>
    branchOutline condition thenBranch.outline (some elseBranch.outline)
  | .result keyword value =>
    tuple "Return"
      [record "ReturnStmt"
        [field "keyword" keyword.outline, field "value" (option (value.map Expr.outline))]]
  | .empty => .atom "Empty"

def Stmt.eachOutline : List Stmt → List Outline
  | [] => []
  | s :: rest => s.outline :: Stmt.eachOutline rest

end

def Function.outline (f : Function) : Outline :=
  record "FuncDecl"
    [field "return_type" f.returnType.outline, field "name" f.name.outline,
      field "params" (.list (f.params.map fun p => variableOutline p.type p.name none)),
      field "body" (blockOutline (Stmt.eachOutline f.body))]

def Program.outline (p : Program) : Outline :=
  record "Program" [field "functions" (.list (p.functions.map Function.outline))]

end BraceLang
