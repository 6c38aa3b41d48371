import BraceLang.Tree

/-!
# Trees as source text

A tree is written as words with gaps between them. Operators are written with parentheses around
each use, names and numbers as they were read. Every statement starts a line of its own, indented by
four columns a level; the block that is the body of a loop or a branch opens on the line of its
header.
-/

namespace BraceLang

inductive Piece where
  | word (kind : Kind) (text : String)
  | gap (text : String)
deriving DecidableEq, Repr

namespace Piece

def text : Piece → String
  | word _ text => text
  | gap text => text

def mark (kind : Kind) : Piece :=
  .word kind (kind.spelling?.getD "")

def ident (t : Token) : Piece :=
  .word .identifier t.lexeme

def space : Piece :=
  .gap " "

def textOf (pieces : List Piece) : String :=
  String.join (pieces.map text)

def clause (keyword : Kind) (condition : List Piece) : List Piece :=
  [mark keyword, space, mark .leftParen] ++ condition ++ [mark .rightParen]

def commas (items : List (List Piece)) : List Piece :=
  [mark .comma, space].intercalate items

end Piece

open Piece in
mutual

def Expr.pieces : Expr → List Piece
  | .int literal => [word .intLiteral literal.token.lexeme]
  | .float _ token => [word .floatLiteral token.lexeme]
  | .string value _ => [word .stringLiteral s!"\"{value}\""]
  | .var t => [ident t]
  | .index t place => [ident t, mark .leftBracket] ++ place.pieces ++ [mark .rightBracket]
  | .call t args =>
    [ident t, mark .leftParen] ++ commas (Expr.eachPieces args) ++ [mark .rightParen]
  | .unary op _ operand => [mark .leftParen, mark op.kind] ++ operand.pieces ++ [mark .rightParen]
  | .binary op _ lhs rhs =>
    [mark .leftParen] ++ lhs.pieces ++ [space, mark op.kind, space] ++ rhs.pieces ++
      [mark .rightParen]

def Expr.eachPieces : List Expr → List (List Piece)
  | [] => []
  | e :: rest => e.pieces :: Expr.eachPieces rest

end

theorem Expr.eachPieces_eq_map (es : List Expr) : Expr.eachPieces es = es.map Expr.pieces := by
  induction es with
  | nil => rfl
  | cons e rest ih => rw [eachPieces, ih, List.map_cons]

def Expr.text (e : Expr) : String :=
  Piece.textOf e.pieces

structure Line where
  depth : Nat
  pieces : List Piece
deriving DecidableEq, Repr

namespace Line

def ofPieces (pieces : List Piece) : Line :=
  ⟨0, pieces⟩

def indented (lines : List Line) : List Line :=
  lines.map fun l => ⟨l.depth + 1, l.pieces⟩

def text (l : Line) : String :=
  String.ofList (List.replicate (4 * l.depth) ' ') ++ Piece.textOf l.pieces ++ "\n"

def textOf (lines : List Line) : String :=
  String.join (lines.map text)

open Piece in
def headed (header : List Piece) (isBlock : Bool) (body : List Line) : List Line :=
  match isBlock, body with
  | true, first :: rest => ⟨first.depth, header ++ [space] ++ first.pieces⟩ :: rest
  | _, _ => ofPieces header :: indented body

end Line

namespace Stmt

def isBlock : Stmt → Bool
  | block _ => true
  | _ => false

end Stmt

open Piece in
mutual

def Stmt.lines : Stmt → List Line
  | .expr e => [.ofPieces (e.pieces ++ [mark .semicolon])]
  | .var type t none => [.ofPieces [ident type, space, ident t, mark .semicolon]]
  | .var type t (some init) =>
    [.ofPieces ([ident type, space, ident t, space, mark .equals, space] ++ init.pieces ++
      [mark .semicolon])]
  | .array type t size =>
    [.ofPieces [ident type, space, ident t, mark .leftBracket,
      word .intLiteral size.token.lexeme, mark .rightBracket, mark .semicolon]]
  | .block statements =>
    [.ofPieces [mark .leftBrace]] ++ Line.indented (Stmt.eachLines statements) ++
      [.ofPieces [mark .rightBrace]]
  | .loop condition body =>
    Line.headed (clause .reservedWhile condition.pieces) body.isBlock body.lines
  | .ifThen condition thenBranch =>
    Line.headed (clause .reservedIf condition.pieces) thenBranch.isBlock thenBranch.lines
  | .ifElse condition thenBranch elseBranch =>
    Line.headed (clause .reservedIf condition.pieces) thenBranch.isBlock thenBranch.lines ++
      Line.headed [mark .reservedElse] elseBranch.isBlock elseBranch.lines
  | .result _ none => [.ofPieces [mark .reservedReturn, mark .semicolon]]
  | .result _ (some value) =>
    [.ofPieces ([mark .reservedReturn, space] ++ value.pieces ++ [mark .semicolon])]
  | .empty => [.ofPieces [mark .semicolon]]

def Stmt.eachLines : List Stmt → List Line
  | [] => []
  | s :: rest => s.lines ++ Stmt.eachLines rest

end

theorem Stmt.eachLines_eq_flatMap (statements : List Stmt) :
    Stmt.eachLines statements = statements.flatMap Stmt.lines := by
  induction statements with
  | nil => rfl
  | cons s rest ih => rw [eachLines, ih, List.flatMap_cons]

open Piece in
def Param.pieces (p : Param) : List Piece :=
  [ident p.type, space, ident p.name]

open Piece in
def Function.lines (f : Function) : List Line :=
  [.ofPieces ([ident f.returnType, space, ident f.name, mark .leftParen] ++
    commas (f.params.map Param.pieces) ++ [mark .rightParen, space, mark .leftBrace])] ++
    Line.indented (Stmt.eachLines f.body) ++ [.ofPieces [mark .rightBrace]]

def Program.lines (p : Program) : List Line :=
  [Line.ofPieces []].intercalate (p.functions.map Function.lines)

def Program.text (p : Program) : String :=
  Line.textOf p.lines

end BraceLang
