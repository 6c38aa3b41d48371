import BraceLang.Token
import BraceLang.Numeral.Binary64

/-!
# Trees

The trees of expressions, statements, functions and programs. A node keeps the tokens that it was
read from: names, literals, operators, types and the word `return`. There are no loops with a
counter of their own, only `while`; the grammar writes a `for` loop as blocks around a `while`.
-/

namespace BraceLang

open Numeral (Binary64)

inductive BinaryOp where
  | assign
  | eq | ne
  | lt | le | gt | ge
  | add | sub
  | mul | div | mod
  | pow
deriving DecidableEq, Repr

def BinaryOp.kind : BinaryOp → Kind
  | assign => .equals
  | eq => .equalsEquals
  | ne => .bangEquals
  | lt => .lessThan
  | le => .lessThanEquals
  | gt => .greaterThan
  | ge => .greaterThanEquals
  | add => .plus
  | sub => .minus
  | mul => .star
  | div => .slash
  | mod => .percent
  | pow => .caret

def BinaryOp.symbol : BinaryOp → String
  | assign => "="
  | eq => "=="
  | ne => "!="
  | lt => "<"
  | le => "<="
  | gt => ">"
  | ge => ">="
  | add => "+"
  | sub => "-"
  | mul => "*"
  | div => "/"
  | mod => "%"
  | pow => "^"

theorem BinaryOp.spelling_kind (op : BinaryOp) : op.kind.spelling? = some op.symbol := by
  cases op <;> rfl

inductive UnaryOp where
  | plus
  | neg
deriving DecidableEq, Repr

def UnaryOp.kind : UnaryOp → Kind
  | plus => .plus
  | neg => .minus

def UnaryOp.symbol : UnaryOp → String
  | plus => "+"
  | neg => "-"

theorem UnaryOp.spelling_kind (op : UnaryOp) : op.kind.spelling? = some op.symbol := by
  cases op <;> rfl

structure IntLiteral where
  value : Int
  token : Token
deriving DecidableEq, Repr

inductive Expr where
  | int (literal : IntLiteral)
  | float (value : Binary64) (token : Token)
  | string (value : String) (token : Token)
  | var (name : Token)
  | index (name : Token) (place : Expr)
  | call (name : Token) (args : List Expr)
  | unary (op : UnaryOp) (operator : Token) (operand : Expr)
  | binary (op : BinaryOp) (operator : Token) (lhs rhs : Expr)
deriving Repr

inductive Stmt where
  | expr (e : Expr)
  | var (type name : Token) (init : Option Expr)
  | array (type name : Token) (size : IntLiteral)
  | block (statements : List Stmt)
  | loop (condition : Expr) (body : Stmt)
  | ifThen (condition : Expr) (thenBranch : Stmt)
  | ifElse (condition : Expr) (thenBranch elseBranch : Stmt)
  | result (keyword : Token) (value : Option Expr)
  | empty
deriving Repr

structure Param where
  type : Token
  name : Token
deriving DecidableEq, Repr

structure Function where
  returnType : Token
  name : Token
  params : List Param
  body : List Stmt
deriving Repr

structure Program where
  functions : List Function
deriving Repr

/-- Induction with one hypothesis for all arguments of a call. -/
@[induction_eliminator]
theorem Expr.induct {motive : Expr → Prop} (int : ∀ literal, motive (.int literal))
    (float : ∀ value token, motive (.float value token))
    (string : ∀ value token, motive (.string value token)) (var : ∀ name, motive (.var name))
    (index : ∀ name place, motive place → motive (.index name place))
    (call : ∀ name args, (∀ e ∈ args, motive e) → motive (.call name args))
    (unary : ∀ op operator operand, motive operand → motive (.unary op operator operand))
    (binary : ∀ op operator lhs rhs, motive lhs → motive rhs →
      motive (.binary op operator lhs rhs)) (e : Expr) : motive e :=
  Expr.rec int float string var index call unary binary (by simp)
    (fun _ _ head tail => by simpa using ⟨head, tail⟩) e

/-- Induction with one hypothesis for all statements of a block. -/
@[induction_eliminator]
theorem Stmt.induct {motive : Stmt → Prop} (expr : ∀ e, motive (.expr e))
    (var : ∀ type name init, motive (.var type name init))
    (array : ∀ type name size, motive (.array type name size))
    (block : ∀ statements, (∀ s ∈ statements, motive s) → motive (.block statements))
    (loop : ∀ condition body, motive body → motive (.loop condition body))
    (ifThen : ∀ condition thenBranch, motive thenBranch → motive (.ifThen condition thenBranch))
    (ifElse : ∀ condition thenBranch elseBranch, motive thenBranch → motive elseBranch →
      motive (.ifElse condition thenBranch elseBranch))
    (result : ∀ keyword value, motive (.result keyword value)) (empty : motive .empty)
    (s : Stmt) : motive s :=
  Stmt.rec expr var array block loop ifThen ifElse result empty (by simp)
    (fun _ _ head tail => by simpa using ⟨head, tail⟩) s

def Expr.location : Expr → Location
  | int literal => literal.token.start
  | float _ token => token.start
  | string _ token => token.start
  | var name => name.start
  | index name _ => name.start
  | call name _ => name.start
  | unary _ operator _ => operator.start
  | binary _ _ lhs _ => lhs.location

mutual

/-- The place of the first token that a statement keeps, if it keeps any. -/
def Stmt.location : Stmt → Option Location
  | .expr e => some e.location
  | .var type _ _ => some type.start
  | .array type _ _ => some type.start
  | .block statements => Stmt.firstLocation statements
  | .loop condition _ => some condition.location
  | .ifThen condition _ => some condition.location
  | .ifElse condition _ _ => some condition.location
  | .result keyword _ => some keyword.start
  | .empty => none

def Stmt.firstLocation : List Stmt → Option Location
  | [] => none
  | s :: rest => s.location.or (Stmt.firstLocation rest)

end

theorem Stmt.firstLocation_eq_findSome? (statements : List Stmt) :
    Stmt.firstLocation statements = statements.findSome? Stmt.location := by
  induction statements with
  | nil => rfl
  | cons s rest ih =>
    rw [firstLocation, ih, List.findSome?_cons]
    cases s.location <;> rfl

end BraceLang
