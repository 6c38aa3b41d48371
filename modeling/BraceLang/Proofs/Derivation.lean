import BraceLang.Grammar.Statement

/-!
# Derivations

`Derives phrase levels ts` says that the tokens `ts` can be read as the phrase, by the rules of the
grammar alone, and that the reading opens `levels` levels of nesting at its deepest point. Every
statement other than the block of a function, every expression, the right operand of `=` and of `^`
and the operand of a sign opens a level.

Each constructor is one alternative of a rule. A `for` loop derives the blocks and the `while` loop
that it stands for. An `else` belongs to the nearest `if` before it that is still open: a statement
comes with a mark that says whether an `else` right behind it would belong to an `if` inside it, and
no such statement is the first branch of an `if` with an `else`.
-/

namespace BraceLang.Grammar

/-- The levels of precedence, from the loosest to the tightest. -/
inductive Rung where
  | expression | assignment | equality | comparison | sum | product | unary | power | atom
deriving DecidableEq, Repr

namespace Rung

/-- The level whose phrases are phrases of this one too. A whole expression is an assignment as
well, but one level of nesting further down. -/
def tighter? : Rung → Option Rung
  | assignment => some equality
  | equality => some comparison
  | comparison => some sum
  | sum => some product
  | product => some unary
  | unary => some power
  | power => some atom
  | expression | atom => none

def leftOp? : Rung → Kind → Option BinaryOp
  | equality => equalityOp?
  | comparison => comparisonOp?
  | sum => sumOp?
  | product => productOp?
  | _ => fun _ => none

end Rung

/-- What a run of tokens is read as. -/
inductive Phrase where
  | expr (rung : Rung) (e : Expr)
  | arguments (es : List Expr)
  | furtherArguments (es : List Expr)
  | initializer (init : Option Expr)
  | value (v : Option Expr)
  | start (s : Stmt)
  | form (opens : Bool) (s : Stmt)
  | stmt (opens : Bool) (s : Stmt)
  | stmts (ss : List Stmt)
  | block (ss : List Stmt)
  | params (ps : List Param)
  | furtherParams (ps : List Param)
  | function (f : Function)
  | functions (fs : List Function)

structure Reads (l : IntLiteral) : Prop where
  kind : l.token.kind = .intLiteral
  value : Numeral.readInteger? l.token.lexeme.toList = some l.value

inductive Derives : Phrase → Nat → List Token → Prop
  -- expressions
  | expression {e d ts} : Derives (.expr .assignment e) d ts →
      Derives (.expr .expression e) (d + 1) ts
  | tighter {r r' e d ts} : r.tighter? = some r' → Derives (.expr r' e) d ts →
      Derives (.expr r e) d ts
  | assign {t lhs rhs d d' ls rs} : Derives (.expr .equality lhs) d ls → t.kind = .equals →
      Derives (.expr .assignment rhs) d' rs →
      Derives (.expr .assignment (.binary .assign t lhs rhs)) (max d (d' + 1)) (ls ++ t :: rs)
  | left {r r' op t lhs rhs d d' ls rs} : r.tighter? = some r' → Derives (.expr r lhs) d ls →
      r.leftOp? t.kind = some op → Derives (.expr r' rhs) d' rs →
      Derives (.expr r (.binary op t lhs rhs)) (max d d') (ls ++ t :: rs)
  | sign {op t e d ts} : unaryOp? t.kind = some op → Derives (.expr .unary e) d ts →
      Derives (.expr .unary (.unary op t e)) (d + 1) (t :: ts)
  | pow {t lhs rhs d d' ls rs} : Derives (.expr .atom lhs) d ls → t.kind = .caret →
      Derives (.expr .power rhs) d' rs →
      Derives (.expr .power (.binary .pow t lhs rhs)) (max d (d' + 1)) (ls ++ t :: rs)
  | int {l} : Reads l → Derives (.expr .atom (.int l)) 0 [l.token]
  | float {t x} : t.kind = .floatLiteral → Numeral.Binary64.read? t.lexeme.toList = some x →
      Derives (.expr .atom (.float x t)) 0 [t]
  | string {t} : t.kind = .stringLiteral →
      Derives (.expr .atom (.string (Parser.unquote t.lexeme) t)) 0 [t]
  | var {t} : t.kind = .identifier → Derives (.expr .atom (.var t)) 0 [t]
  | index {t o c e d ts} : t.kind = .identifier → o.kind = .leftBracket →
      Derives (.expr .expression e) d ts → c.kind = .rightBracket →
      Derives (.expr .atom (.index t e)) d (t :: o :: (ts ++ [c]))
  | call {t o c es d ts} : t.kind = .identifier → o.kind = .leftParen →
      Derives (.arguments es) d ts → c.kind = .rightParen →
      Derives (.expr .atom (.call t es)) d (t :: o :: (ts ++ [c]))
  | parens {o c e d ts} : o.kind = .leftParen → Derives (.expr .expression e) d ts →
      c.kind = .rightParen → Derives (.expr .atom e) d (o :: (ts ++ [c]))
  | noArguments : Derives (.arguments []) 0 []
  | someArguments {e es d d' ts ts'} : Derives (.expr .expression e) d ts →
      Derives (.furtherArguments es) d' ts' → Derives (.arguments (e :: es)) (max d d') (ts ++ ts')
  | noFurtherArguments : Derives (.furtherArguments []) 0 []
  | furtherArguments {t e es d d' ts ts'} : t.kind = .comma → Derives (.expr .expression e) d ts →
      Derives (.furtherArguments es) d' ts' →
      Derives (.furtherArguments (e :: es)) (max d d') (t :: (ts ++ ts'))
  -- statements
  | stmt {o s d ts} : Derives (.form o s) d ts → Derives (.stmt o s) (d + 1) ts
  | expr {e t d ts} : Derives (.expr .expression e) d ts → t.kind = .semicolon →
      Derives (.form false (.expr e)) d (ts ++ [t])
  | scalar {a b t i d ts} : a.kind = .identifier → b.kind = .identifier →
      Derives (.initializer i) d ts → t.kind = .semicolon →
      Derives (.form false (.var a b i)) d (a :: b :: (ts ++ [t]))
  | array {a b o l c t} : a.kind = .identifier → b.kind = .identifier → o.kind = .leftBracket →
      Reads l → c.kind = .rightBracket → t.kind = .semicolon →
      Derives (.form false (.array a b l)) 0 [a, b, o, l.token, c, t]
  | blockForm {ss d ts} : Derives (.block ss) d ts → Derives (.form false (.block ss)) d ts
  | loop {w o c t e s d d' ts ts'} : w.kind = .reservedWhile → o.kind = .leftParen →
      Derives (.expr .expression e) d ts → c.kind = .rightParen → Derives (.stmt t s) d' ts' →
      Derives (.form t (.loop e s)) (max d d') (w :: o :: (ts ++ c :: ts'))
  | forLoop {w o a c t init e i s d₀ d₁ d₂ d₃ ts₀ ts₁ ts₂ ts₃} : w.kind = .reservedFor →
      o.kind = .leftParen → Derives (.start init) d₀ ts₀ → Derives (.expr .expression e) d₁ ts₁ →
      a.kind = .semicolon → Derives (.expr .expression i) d₂ ts₂ → c.kind = .rightParen →
      Derives (.stmt t s) d₃ ts₃ →
      Derives (.form t (forAsWhile init e i s)) (max d₀ (max d₁ (max d₂ d₃)))
        (w :: o :: (ts₀ ++ (ts₁ ++ a :: (ts₂ ++ c :: ts₃))))
  | ifThen {w o c t e s d d' ts ts'} : w.kind = .reservedIf → o.kind = .leftParen →
      Derives (.expr .expression e) d ts → c.kind = .rightParen → Derives (.stmt t s) d' ts' →
      Derives (.form true (.ifThen e s)) (max d d') (w :: o :: (ts ++ c :: ts'))
  | ifElse {w o c l t e s s' d d' d'' ts ts' ts''} : w.kind = .reservedIf → o.kind = .leftParen →
      Derives (.expr .expression e) d ts → c.kind = .rightParen → Derives (.stmt false s) d' ts' →
      l.kind = .reservedElse → Derives (.stmt t s') d'' ts'' →
      Derives (.form t (.ifElse e s s')) (max d (max d' d''))
        (w :: o :: (ts ++ c :: (ts' ++ l :: ts'')))
  | result {k v t d ts} : k.kind = .reservedReturn → Derives (.value v) d ts → t.kind = .semicolon →
      Derives (.form false (.result k v)) d (k :: (ts ++ [t]))
  | empty {t} : t.kind = .semicolon → Derives (.form false .empty) 0 [t]
  | noInitializer : Derives (.initializer none) 0 []
  | initializer {t e d ts} : t.kind = .equals → Derives (.expr .expression e) d ts →
      Derives (.initializer (some e)) d (t :: ts)
  | noValue : Derives (.value none) 0 []
  | value {e d ts} : Derives (.expr .expression e) d ts → Derives (.value (some e)) d ts
  | varStart {a b t i d ts} : a.kind = .identifier → b.kind = .identifier →
      Derives (.initializer i) d ts → t.kind = .semicolon →
      Derives (.start (.var a b i)) d (a :: b :: (ts ++ [t]))
  | emptyStart {t} : t.kind = .semicolon → Derives (.start .empty) 0 [t]
  | exprStart {e t d ts} : Derives (.expr .expression e) d ts → t.kind = .semicolon →
      Derives (.start (.expr e)) d (ts ++ [t])
  | block {o c ss d ts} : o.kind = .leftBrace → Derives (.stmts ss) d ts → c.kind = .rightBrace →
      Derives (.block ss) d (o :: (ts ++ [c]))
  | noStmts : Derives (.stmts []) 0 []
  | stmts {o s ss d d' ts ts'} : Derives (.stmt o s) d ts → Derives (.stmts ss) d' ts' →
      Derives (.stmts (s :: ss)) (max d d') (ts ++ ts')
  -- functions
  | noParams : Derives (.params []) 0 []
  | params {p ps ts} : p.type.kind = .identifier → p.name.kind = .identifier →
      Derives (.furtherParams ps) 0 ts → Derives (.params (p :: ps)) 0 (p.type :: p.name :: ts)
  | noFurtherParams : Derives (.furtherParams []) 0 []
  | furtherParams {t p ps ts} : t.kind = .comma → p.type.kind = .identifier →
      p.name.kind = .identifier → Derives (.furtherParams ps) 0 ts →
      Derives (.furtherParams (p :: ps)) 0 (t :: p.type :: p.name :: ts)
  | function {f o c d ts ts'} : f.returnType.kind = .identifier → f.name.kind = .identifier →
      o.kind = .leftParen → Derives (.params f.params) 0 ts → c.kind = .rightParen →
      Derives (.block f.body) d ts' →
      Derives (.function f) d (f.returnType :: f.name :: o :: (ts ++ c :: ts'))
  | noFunctions : Derives (.functions []) 0 []
  | functions {f fs d d' ts ts'} : Derives (.function f) d ts → Derives (.functions fs) d' ts' →
      Derives (.functions (f :: fs)) (max d d') (ts ++ ts')

/-- A name is an expression. -/
theorem Derives.name {t : Token} (h : t.kind = .identifier) :
    Derives (.expr .expression (.var t)) 1 [t] :=
  .expression <| .tighter rfl <| .tighter rfl <| .tighter rfl <| .tighter rfl <| .tighter rfl <|
    .tighter rfl <| .tighter rfl <| .var h

end BraceLang.Grammar
