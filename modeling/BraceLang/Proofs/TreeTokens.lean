import BraceLang.Proofs.Recognition

/-!
# The tokens of a tree

A tree keeps the names, the literals, the operators and the words `return` of the tokens that it was
read from, each of them once, and drops the rest (`Kind.isKept`). An equals sign is kept if it is an
operator and dropped if it starts the value of a variable. The order of the tokens is kept as well,
but for the increment of a `for` loop, which moves behind the body.
-/

namespace BraceLang

mutual

def Expr.tokens : Expr → List Token
  | .int literal => [literal.token]
  | .float _ t => [t]
  | .string _ t => [t]
  | .var name => [name]
  | .index name place => name :: place.tokens
  | .call name args => name :: Expr.eachTokens args
  | .unary _ operator operand => operator :: operand.tokens
  | .binary _ operator lhs rhs => lhs.tokens ++ operator :: rhs.tokens

def Expr.eachTokens : List Expr → List Token
  | [] => []
  | e :: rest => e.tokens ++ Expr.eachTokens rest

end

mutual

def Expr.nodes : Expr → List Expr
  | .int literal => [.int literal]
  | .float value t => [.float value t]
  | .string value t => [.string value t]
  | .var name => [.var name]
  | .index name place => .index name place :: place.nodes
  | .call name args => .call name args :: Expr.eachNodes args
  | .unary op operator operand => .unary op operator operand :: operand.nodes
  | .binary op operator lhs rhs => .binary op operator lhs rhs :: (lhs.nodes ++ rhs.nodes)

def Expr.eachNodes : List Expr → List Expr
  | [] => []
  | e :: rest => e.nodes ++ Expr.eachNodes rest

end

mutual

/-- The tokens of a statement: of its expressions and of its parts in the order of their fields. -/
def Stmt.tokens : Stmt → List Token
  | .expr e => e.tokens
  | .var type name init => type :: name :: init.toList.flatMap Expr.tokens
  | .array type name size => [type, name, size.token]
  | .block statements => Stmt.eachTokens statements
  | .loop condition body => condition.tokens ++ body.tokens
  | .ifThen condition thenBranch => condition.tokens ++ thenBranch.tokens
  | .ifElse condition thenBranch elseBranch =>
    condition.tokens ++ (thenBranch.tokens ++ elseBranch.tokens)
  | .result keyword value => keyword :: value.toList.flatMap Expr.tokens
  | .empty => []

def Stmt.eachTokens : List Stmt → List Token
  | [] => []
  | s :: rest => s.tokens ++ Stmt.eachTokens rest

end

mutual

def Stmt.nodes : Stmt → List Stmt
  | .expr e => [.expr e]
  | .var type name init => [.var type name init]
  | .array type name size => [.array type name size]
  | .block statements => .block statements :: Stmt.eachNodes statements
  | .loop condition body => .loop condition body :: body.nodes
  | .ifThen condition thenBranch => .ifThen condition thenBranch :: thenBranch.nodes
  | .ifElse condition thenBranch elseBranch =>
    .ifElse condition thenBranch elseBranch :: (thenBranch.nodes ++ elseBranch.nodes)
  | .result keyword value => [.result keyword value]
  | .empty => [.empty]

def Stmt.eachNodes : List Stmt → List Stmt
  | [] => []
  | s :: rest => s.nodes ++ Stmt.eachNodes rest

end

mutual

def Stmt.expressions : Stmt → List Expr
  | .expr e => e.nodes
  | .var _ _ init => init.toList.flatMap Expr.nodes
  | .array .. => []
  | .block statements => Stmt.eachExpressions statements
  | .loop condition body => condition.nodes ++ body.expressions
  | .ifThen condition thenBranch => condition.nodes ++ thenBranch.expressions
  | .ifElse condition thenBranch elseBranch =>
    condition.nodes ++ (thenBranch.expressions ++ elseBranch.expressions)
  | .result _ value => value.toList.flatMap Expr.nodes
  | .empty => []

def Stmt.eachExpressions : List Stmt → List Expr
  | [] => []
  | s :: rest => s.expressions ++ Stmt.eachExpressions rest

end

def Param.tokens (p : Param) : List Token :=
  [p.type, p.name]

def Function.tokens (f : Function) : List Token :=
  f.returnType :: f.name :: (f.params.flatMap Param.tokens ++ Stmt.eachTokens f.body)

def Program.tokens (p : Program) : List Token :=
  p.functions.flatMap Function.tokens

def Program.statements (p : Program) : List Stmt :=
  p.functions.flatMap fun f => Stmt.eachNodes f.body

def Program.expressions (p : Program) : List Expr :=
  p.functions.flatMap fun f => Stmt.eachExpressions f.body

def Expr.isAssignment : Expr → Bool
  | .binary op .. => op = .assign
  | _ => false

def Stmt.isInitialized : Stmt → Bool
  | .var _ _ (some _) => true
  | _ => false

/-- Names, literals, operators and the word `return`. -/
def Kind.isKept : Kind → Bool
  | identifier | intLiteral | floatLiteral | stringLiteral | reservedReturn => true
  | equals | equalsEquals | bangEquals => true
  | lessThan | lessThanEquals | greaterThan | greaterThanEquals => true
  | plus | minus | star | slash | percent | caret => true
  | _ => false

def Token.isKept (t : Token) : Bool :=
  t.kind.isKept

def Token.isEquals (t : Token) : Bool :=
  t.kind = .equals

namespace Grammar

def Phrase.tokens : Phrase → List Token
  | expr _ e => e.tokens
  | arguments es | furtherArguments es => Expr.eachTokens es
  | initializer i | value i => i.toList.flatMap Expr.tokens
  | start s | form _ s | stmt _ s => s.tokens
  | stmts ss | block ss => Stmt.eachTokens ss
  | params ps | furtherParams ps => ps.flatMap Param.tokens
  | function f => f.tokens
  | functions fs => fs.flatMap Function.tokens

def Phrase.ofExpressions : Phrase → Bool
  | expr .. | arguments _ | furtherArguments _ => true
  | _ => false

theorem Rung.isKept_of_leftOp? {r : Rung} {k : Kind} {op : BinaryOp} (h : r.leftOp? k = some op) :
    k.isKept := by
  cases r <;> first | cases h | (cases k <;> first | rfl | cases h)

theorem isKept_of_unaryOp? {k : Kind} {op : UnaryOp} (h : unaryOp? k = some op) : k.isKept := by
  cases k <;> first | rfl | cases h

section Filter

variable {t : Token} (ts : List Token)

theorem filter_kept (h : t.kind.isKept = true) :
    (t :: ts).filter Token.isKept = t :: ts.filter Token.isKept :=
  List.filter_cons_of_pos h

theorem filter_kept_of_kind {k : Kind} (h : t.kind = k) (hk : k.isKept = true) :
    (t :: ts).filter Token.isKept = t :: ts.filter Token.isKept :=
  filter_kept ts (h ▸ hk)

theorem filter_mark_of_kind {k : Kind} (h : t.kind = k) (hk : k.isKept = false) :
    (t :: ts).filter Token.isKept = ts.filter Token.isKept := by
  have hdropped : ¬ t.isKept = true := by simp [Token.isKept, h, hk]
  exact List.filter_cons_of_neg hdropped

end Filter

/-- The tokens of an expression are kept in their order, and only marks between them are dropped. -/
theorem Derives.tokens_eq_filter {ph : Phrase} {d : Nat} {ts : List Token} (h : Derives ph d ts)
    (hs : ph.ofExpressions) : ph.tokens = ts.filter Token.isKept := by
  induction h with
  | expression _ ih | tighter _ _ ih => exact ih rfl
  | assign _ ht _ ihl ihr | pow _ ht _ ihl ihr =>
    rw [List.filter_append, filter_kept_of_kind _ ht rfl, ← ihl rfl, ← ihr rfl]
    rfl
  | left _ _ ht _ ihl ihr =>
    rw [List.filter_append, filter_kept _ (Rung.isKept_of_leftOp? ht), ← ihl rfl, ← ihr rfl]
    rfl
  | sign ht _ ih =>
    rw [filter_kept _ (isKept_of_unaryOp? ht), ← ih rfl]
    rfl
  | int hl => exact (filter_kept_of_kind [] hl.kind rfl).symm
  | float ht | string ht | var ht => exact (filter_kept_of_kind [] ht rfl).symm
  | index ht ho _ hc ih | call ht ho _ hc ih =>
    rw [filter_kept_of_kind _ ht rfl, filter_mark_of_kind _ ho rfl, List.filter_append,
      filter_mark_of_kind _ hc rfl, ← ih rfl, List.filter_nil, List.append_nil]
    rfl
  | parens ho _ hc ih =>
    rw [filter_mark_of_kind _ ho rfl, List.filter_append, filter_mark_of_kind _ hc rfl, ← ih rfl,
      List.filter_nil, List.append_nil]
    rfl
  | noArguments | noFurtherArguments => rfl
  | someArguments _ _ ih ihs =>
    rw [List.filter_append, ← ih rfl, ← ihs rfl]
    rfl
  | furtherArguments ht _ _ ih ihs =>
    rw [filter_mark_of_kind _ ht rfl, List.filter_append, ← ih rfl, ← ihs rfl]
    rfl
  | _ => cases hs

def others (ts : List Token) : List Token :=
  ts.filter fun t => !t.isEquals

/-- But for equals signs, the first tokens are the kept ones among the second, in their order if no
`for` is among them. -/
structure Keeps (us ts : List Token) : Prop where
  perm : (others us).Perm (others (ts.filter Token.isKept))
  ordered : (∀ t ∈ ts, t.kind ≠ .reservedFor) → others us = others (ts.filter Token.isKept)

namespace Keeps

variable {t : Token} {us us' ts ts' : List Token}

theorem of_eq (h : us = ts.filter Token.isKept) : Keeps us ts :=
  ⟨h ▸ .refl _, fun _ => h ▸ rfl⟩

theorem nil : Keeps [] [] :=
  of_eq rfl

theorem append (h : Keeps us ts) (h' : Keeps us' ts') : Keeps (us ++ us') (ts ++ ts') where
  perm := by
    simp only [others, List.filter_append]
    exact h.perm.append h'.perm
  ordered hfor := by
    simp only [others, List.filter_append]
    have hts := h.ordered fun t ht => hfor t (List.mem_append_left ts' ht)
    have hts' := h'.ordered fun t ht => hfor t (List.mem_append_right ts ht)
    exact (congrArg (· ++ others us') hts).trans (congrArg (others (ts.filter _) ++ ·) hts')

theorem keep {k : Kind} (ht : t.kind = k) (hk : k.isKept = true) (h : Keeps us ts) :
    Keeps (t :: us) (t :: ts) :=
  append (of_eq (filter_kept_of_kind [] ht hk).symm) h

theorem drop {k : Kind} (ht : t.kind = k) (hk : k.isKept = false) (h : Keeps us ts) :
    Keeps us (t :: ts) :=
  append (of_eq (filter_mark_of_kind [] ht hk).symm) h

theorem concat_drop {k : Kind} (h : Keeps us ts) (ht : t.kind = k) (hk : k.isKept = false) :
    Keeps us (ts ++ [t]) :=
  us.append_nil ▸ h.append (drop ht hk nil)

/-- An equals sign may be kept or not. -/
theorem equals (ht : t.kind = .equals) (h : Keeps us ts) : Keeps us (t :: ts) := by
  have hone : Keeps [] [t] := by
    have hfilter := filter_kept_of_kind [] ht rfl
    constructor <;> simp [hfilter, others, Token.isEquals, ht]
  exact append hone h

/-- With a `for` among the tokens their order is not kept. -/
theorem of_perm (h : Keeps us ts) (hperm : us'.Perm us) (hfor : ∃ t ∈ ts, t.kind = .reservedFor) :
    Keeps us' ts where
  perm := (hperm.filter _).trans h.perm
  ordered hnone := by
    obtain ⟨t, ht, hkind⟩ := hfor
    exact absurd hkind (hnone t ht)

end Keeps

theorem Derives.keeps_expression {e : Expr} {d : Nat} {ts : List Token}
    (h : Derives (.expr .expression e) d ts) : Keeps e.tokens ts :=
  .of_eq (h.tokens_eq_filter rfl)

theorem keeps_some {e : Expr} {d : Nat} {ts : List Token} (h : Derives (.expr .expression e) d ts) :
    Keeps ((some e).toList.flatMap Expr.tokens) ts := by
  rw [Option.toList_some, List.flatMap_singleton]
  exact h.keeps_expression

/-- The increment of a loop moves behind its body. -/
theorem tokens_forAsWhile_perm (init body : Stmt) (e i : Expr) :
    (forAsWhile init e i body).tokens.Perm
      (init.tokens ++ (e.tokens ++ (i.tokens ++ body.tokens))) := by
  have htokens : (forAsWhile init e i body).tokens =
      init.tokens ++ (e.tokens ++ (body.tokens ++ i.tokens)) := by
    simp [forAsWhile, Stmt.tokens, Stmt.eachTokens]
  rw [htokens]
  exact ((List.perm_append_comm).append_left _).append_left _

/-- The tree of a phrase keeps the tokens of the phrase. -/
theorem Derives.keeps {ph : Phrase} {d : Nat} {ts : List Token} (h : Derives ph d ts)
    (hs : ph.ofExpressions = false) : Keeps ph.tokens ts := by
  induction h with
  | stmt _ ih | blockForm _ ih => exact ih rfl
  | expr he ht | exprStart he ht => exact he.keeps_expression.concat_drop ht rfl
  | scalar ha hb _ ht ih | varStart ha hb _ ht ih =>
    exact .keep ha rfl (.keep hb rfl ((ih rfl).concat_drop ht rfl))
  | array ha hb ho hl hc ht =>
    exact .keep ha rfl (.keep hb rfl (.drop ho rfl (.keep hl.kind rfl (.drop hc rfl
      (.drop ht rfl .nil)))))
  | loop hw ho he hc _ _ ihs | ifThen hw ho he hc _ _ ihs =>
    exact .drop hw rfl (.drop ho rfl (he.keeps_expression.append (.drop hc rfl (ihs rfl))))
  | forLoop hw ho _ he ha hi hc _ ih _ _ ihs =>
    have hparts := (ih rfl).append (he.keeps_expression.append (.drop ha rfl
      (hi.keeps_expression.append (.drop hc rfl (ihs rfl)))))
    exact (Keeps.drop hw rfl (.drop ho rfl hparts)).of_perm (tokens_forAsWhile_perm _ _ _ _)
      ⟨_, List.mem_cons_self, hw⟩
  | ifElse hw ho he hc _ hl _ _ ihs ihs' =>
    exact .drop hw rfl (.drop ho rfl (he.keeps_expression.append (.drop hc rfl
      ((ihs rfl).append (.drop hl rfl (ihs' rfl))))))
  | result hk _ ht ih => exact .keep hk rfl ((ih rfl).concat_drop ht rfl)
  | empty ht | emptyStart ht => exact .drop ht rfl .nil
  | noInitializer | noValue | noStmts | noParams | noFurtherParams | noFunctions => exact .nil
  | initializer ht he => exact .equals ht (keeps_some he)
  | value he => exact keeps_some he
  | block ho _ hc ih => exact .drop ho rfl ((ih rfl).concat_drop hc rfl)
  | stmts _ _ ih ihs | functions _ _ ih ihs => exact (ih rfl).append (ihs rfl)
  | params ha hb _ ih => exact .keep ha rfl (.keep hb rfl (ih rfl))
  | furtherParams ht ha hb _ ih => exact .drop ht rfl (.keep ha rfl (.keep hb rfl (ih rfl)))
  | function ha hb ho _ hc _ ihp ihb =>
    exact .keep ha rfl (.keep hb rfl (.drop ho rfl ((ihp rfl).append (.drop hc rfl (ihb rfl)))))
  | _ => cases hs

end Grammar

def Expr.signs (e : Expr) : Nat :=
  e.nodes.countP Expr.isAssignment

/-- How many equals signs a statement stands for: one for each assignment and one for each variable
that is declared with a value. -/
def Stmt.signs (s : Stmt) : Nat :=
  s.expressions.countP Expr.isAssignment + s.nodes.countP Stmt.isInitialized

def Stmt.eachSigns (ss : List Stmt) : Nat :=
  (Stmt.eachExpressions ss).countP Expr.isAssignment +
    (Stmt.eachNodes ss).countP Stmt.isInitialized

theorem Expr.signs_assign (t : Token) (l r : Expr) :
    (binary .assign t l r).signs = l.signs + (1 + r.signs) := by
  simp only [signs, nodes, List.countP_cons, List.countP_append, isAssignment, decide_true, if_true]
  omega

theorem Expr.signs_binary {op : BinaryOp} (hop : op ≠ .assign) (t : Token) (l r : Expr) :
    (binary op t l r).signs = l.signs + r.signs := by
  simp only [signs, nodes, List.countP_cons, List.countP_append, isAssignment, hop, decide_false,
    Bool.false_eq_true, if_false, Nat.add_zero]

namespace Stmt

variable (condition e : Expr) (s s' : Stmt)

theorem signs_loop : (loop condition s).signs = condition.signs + s.signs := by
  simp only [signs, Expr.signs, expressions, nodes, List.countP_append, List.countP_cons,
    isInitialized, Bool.false_eq_true, if_false, Nat.add_zero, Nat.add_assoc]

theorem signs_ifThen : (ifThen condition s).signs = condition.signs + s.signs :=
  signs_loop condition s

theorem signs_ifElse :
    (ifElse condition s s').signs = condition.signs + (s.signs + s'.signs) := by
  simp only [signs, Expr.signs, expressions, nodes, List.countP_append, List.countP_cons,
    isInitialized, Bool.false_eq_true, if_false]
  omega

theorem signs_block (ss : List Stmt) : (block ss).signs = eachSigns ss :=
  rfl

theorem eachSigns_cons (ss : List Stmt) : eachSigns (s :: ss) = s.signs + eachSigns ss := by
  simp only [eachSigns, signs, eachExpressions, eachNodes, List.countP_append]
  omega

theorem signs_forAsWhile :
    (Grammar.forAsWhile s condition e s').signs =
      s.signs + (condition.signs + (e.signs + s'.signs)) := by
  have hnil : eachSigns [] = 0 := rfl
  have hexpr : (expr e).signs = e.signs := rfl
  simp only [Grammar.forAsWhile, signs_block, eachSigns_cons, signs_loop, hnil, hexpr]
  omega

end Stmt

namespace Grammar

def Phrase.signs : Phrase → Nat
  | expr _ e => e.signs
  | arguments es | furtherArguments es => (Expr.eachNodes es).countP Expr.isAssignment
  | initializer i => i.toList.length + (i.toList.flatMap Expr.nodes).countP Expr.isAssignment
  | value v => (v.toList.flatMap Expr.nodes).countP Expr.isAssignment
  | start s | form _ s | stmt _ s => s.signs
  | stmts ss | block ss => Stmt.eachSigns ss
  | params _ | furtherParams _ => 0
  | function f => Stmt.eachSigns f.body
  | functions fs => (fs.flatMap fun f => Stmt.eachExpressions f.body).countP Expr.isAssignment +
      (fs.flatMap fun f => Stmt.eachNodes f.body).countP Stmt.isInitialized

def Signs (n : Nat) (ts : List Token) : Prop :=
  ts.countP Token.isEquals = n

namespace Signs

variable {t : Token} {m n : Nat} {us ts : List Token}

theorem nil : Signs 0 [] :=
  rfl

theorem append (hm : Signs m us) (hn : Signs n ts) : Signs (m + n) (us ++ ts) := by
  rw [Signs, List.countP_append, hm, hn]

theorem equals (ht : t.kind = .equals) (h : Signs n ts) : Signs (1 + n) (t :: ts) := by
  rw [Signs, List.countP_cons_of_pos (by simp [Token.isEquals, ht]), h, Nat.add_comm]

theorem other {k : Kind} (ht : t.kind = k) (hk : k ≠ .equals) (h : Signs n ts) :
    Signs n (t :: ts) := by
  rw [Signs, List.countP_cons_of_neg (by simp [Token.isEquals, ht, hk]), h]

theorem concat_other {k : Kind} (h : Signs n ts) (ht : t.kind = k) (hk : k ≠ .equals) :
    Signs n (ts ++ [t]) :=
  h.append (other ht hk nil)

theorem value {e : Expr} (h : Signs e.signs ts) : Signs (Phrase.value (some e)).signs ts := by
  rwa [Phrase.signs, Option.toList_some, List.flatMap_singleton]

end Signs

theorem Rung.ne_of_leftOp? {r : Rung} {k : Kind} {op : BinaryOp} (h : r.leftOp? k = some op) :
    k ≠ .equals ∧ op ≠ .assign := by
  cases r <;> first | cases h | (cases k <;> cases h <;> exact ⟨nofun, nofun⟩)

theorem ne_of_unaryOp? {k : Kind} {op : UnaryOp} (h : unaryOp? k = some op) : k ≠ .equals := by
  rintro rfl
  cases h

/-- A declaration has the equals sign of its value. -/
theorem signs_var (type name : Token) (i : Option Expr) :
    (Stmt.var type name i).signs = (Phrase.initializer i).signs := by
  cases i with
  | none => rfl
  | some e => exact Nat.add_comm ..

theorem signs_furtherArguments_cons (e : Expr) (es : List Expr) :
    (Phrase.furtherArguments (e :: es)).signs = e.signs + (Phrase.furtherArguments es).signs :=
  List.countP_append

theorem signs_functions_cons (f : Function) (fs : List Function) :
    (Phrase.functions (f :: fs)).signs =
      (Phrase.function f).signs + (Phrase.functions fs).signs := by
  simp only [Phrase.signs, Stmt.eachSigns, List.flatMap_cons, List.countP_append]
  omega

/-- The equals signs of a phrase are those that its tree stands for. -/
theorem Derives.signs {ph : Phrase} {d : Nat} {ts : List Token} (h : Derives ph d ts) :
    Signs ph.signs ts := by
  induction h with
  | expression _ ih | tighter _ _ ih | stmt _ ih | blockForm _ ih => exact ih
  | assign _ ht _ ihl ihr =>
    rw [Phrase.signs, Expr.signs_assign]
    exact ihl.append (.equals ht ihr)
  | left _ _ ht _ ihl ihr =>
    obtain ⟨hkind, hop⟩ := Rung.ne_of_leftOp? ht
    rw [Phrase.signs, Expr.signs_binary hop]
    exact ihl.append (.other rfl hkind ihr)
  | pow _ ht _ ihl ihr =>
    have hop : BinaryOp.pow ≠ .assign := nofun
    rw [Phrase.signs, Expr.signs_binary hop]
    exact ihl.append (.other ht nofun ihr)
  | sign ht _ ih => exact .other rfl (ne_of_unaryOp? ht) ih
  | int hl => exact .other hl.kind nofun .nil
  | float ht | string ht | var ht | empty ht | emptyStart ht => exact .other ht nofun .nil
  | index ht ho _ hc ih | call ht ho _ hc ih =>
    exact .other ht nofun (.other ho nofun (ih.concat_other hc nofun))
  | parens ho _ hc ih | block ho _ hc ih => exact .other ho nofun (ih.concat_other hc nofun)
  | noArguments | noFurtherArguments | noInitializer | noValue | noStmts | noParams
  | noFurtherParams | noFunctions => exact .nil
  | someArguments _ _ ih ihs => exact signs_furtherArguments_cons .. ▸ ih.append ihs
  | furtherArguments ht _ _ ih ihs =>
    rw [signs_furtherArguments_cons]
    exact .other ht nofun (ih.append ihs)
  | expr _ ht ih | exprStart _ ht ih => exact ih.concat_other ht nofun
  | scalar ha hb _ ht ih | varStart ha hb _ ht ih =>
    rw [Phrase.signs, signs_var]
    exact .other ha nofun (.other hb nofun (ih.concat_other ht nofun))
  | array ha hb ho hl hc ht =>
    exact .other ha nofun (.other hb nofun (.other ho nofun (.other hl.kind nofun
      (.other hc nofun (.other ht nofun .nil)))))
  | loop hw ho _ hc _ ih ihs =>
    rw [Phrase.signs, Stmt.signs_loop]
    exact .other hw nofun (.other ho nofun (ih.append (.other hc nofun ihs)))
  | ifThen hw ho _ hc _ ih ihs =>
    rw [Phrase.signs, Stmt.signs_ifThen]
    exact .other hw nofun (.other ho nofun (ih.append (.other hc nofun ihs)))
  | forLoop hw ho _ _ ha _ hc _ ih ihc ihi ihs =>
    rw [Phrase.signs, Stmt.signs_forAsWhile]
    exact .other hw nofun (.other ho nofun (ih.append (ihc.append (.other ha nofun
      (ihi.append (.other hc nofun ihs))))))
  | ifElse hw ho _ hc _ hl _ ih ihs ihs' =>
    rw [Phrase.signs, Stmt.signs_ifElse]
    exact .other hw nofun (.other ho nofun (ih.append (.other hc nofun
      (ihs.append (.other hl nofun ihs')))))
  | result hk _ ht ih => exact .other hk nofun (ih.concat_other ht nofun)
  | initializer ht _ ih => exact .equals ht (.value ih)
  | value _ ih => exact .value ih
  | stmts _ _ ih ihs =>
    rw [Phrase.signs, Stmt.eachSigns_cons]
    exact ih.append ihs
  | functions _ _ ih ihs =>
    rw [signs_functions_cons]
    exact ih.append ihs
  | params ha hb _ ih => exact .other ha nofun (.other hb nofun ih)
  | furtherParams ht ha hb _ ih => exact .other ht nofun (.other ha nofun (.other hb nofun ih))
  | function ha hb ho _ hc _ ihp ihb =>
    have hbody := ihp.append (.other hc nofun ihb)
    simp only [Phrase.signs, Nat.zero_add] at hbody
    exact .other ha nofun (.other hb nofun (.other ho nofun hbody))

/-- A program that is read keeps the names, literals, operators and words `return` of its tokens,
in their order unless there is a `for`; its equals signs are those of the assignments and of the
values of variables. An expression keeps the order and all its equals signs too. -/
theorem tokens_of_parse :
    (∀ ts p, parse ts = ⟨some p, []⟩ →
      (others p.tokens).Perm (others (ts.filter Token.isKept)) ∧
      ((∀ t ∈ ts, t.kind ≠ .reservedFor) → others p.tokens = others (ts.filter Token.isKept)) ∧
      ts.countP Token.isEquals =
        p.expressions.countP Expr.isAssignment + p.statements.countP Stmt.isInitialized) ∧
    ∀ ts e, parseExpression ts = .ok e →
      e.tokens = ts.filter Token.isKept ∧
      ts.countP Token.isEquals = e.nodes.countP Expr.isAssignment := by
  refine ⟨fun ts p h => ?_, fun ts e h => ?_⟩
  · obtain ⟨d, -, hd⟩ := (recognizes_parseProgram.ok_iff ts p).1 (parse_eq_some_iff.1 h)
    have hkeeps : Keeps p.tokens ts := hd.keeps rfl
    exact ⟨hkeeps.perm, hkeeps.ordered, hd.signs⟩
  · obtain ⟨d, -, hd⟩ := (recognizes_parseExpression.ok_iff ts e).1 h
    exact ⟨hd.tokens_eq_filter rfl, hd.signs⟩

def nameToken (name : String) : Token :=
  ⟨.identifier, .origin, .origin, name⟩

def setTokens : List Token :=
  [nameToken "i", Parser.someToken .equals, nameToken "c"]

def setTree : Expr :=
  .binary .assign (Parser.someToken .equals) (.var (nameToken "i")) (.var (nameToken "c"))

def functionTokens (statement : List Token) : List Token :=
  nameToken "T" :: nameToken "f" ::
    ([.leftParen, .rightParen, .leftBrace].map Parser.someToken ++ statement ++
      [Parser.someToken .rightBrace])

def functionTree (s : Stmt) : Program :=
  ⟨[⟨nameToken "T", nameToken "f", [], [s]⟩]⟩

/-- The tokens of a loop `for (T i = a; b; i = c) d;`. -/
def loopTokens : List Token :=
  [Parser.someToken .reservedFor, Parser.someToken .leftParen, nameToken "T", nameToken "i",
    Parser.someToken .equals, nameToken "a", Parser.someToken .semicolon, nameToken "b",
    Parser.someToken .semicolon] ++ setTokens ++
  [Parser.someToken .rightParen, nameToken "d", Parser.someToken .semicolon]

def loopTree : Stmt :=
  forAsWhile (.var (nameToken "T") (nameToken "i") (some (.var (nameToken "a"))))
    (.var (nameToken "b")) setTree (.expr (.var (nameToken "d")))

/-- The increment of the loop stands behind the body in the tree, and its equals sign and that of
the variable are counted. As a statement or alone the assignment keeps its order. -/
theorem tokens_of_parse_loop :
    parse (functionTokens loopTokens) = ⟨some (functionTree loopTree), []⟩ ∧
    (others (functionTree loopTree).tokens).Perm
      (others ((functionTokens loopTokens).filter Token.isKept)) ∧
    others (functionTree loopTree).tokens =
      ["T", "f", "T", "i", "a", "b", "d", "i", "c"].map nameToken ∧
    (functionTokens loopTokens).countP Token.isEquals = 1 + 1 ∧
    others (functionTree (.expr setTree)).tokens =
      others ((functionTokens (setTokens ++ [Parser.someToken .semicolon])).filter Token.isKept) ∧
    setTree.tokens = setTokens.filter Token.isKept := by
  have hloop : parse (functionTokens loopTokens) = ⟨some (functionTree loopTree), []⟩ := rfl
  have hset : parse (functionTokens (setTokens ++ [Parser.someToken .semicolon])) =
      ⟨some (functionTree (.expr setTree)), []⟩ := rfl
  obtain ⟨hperm, -, hcount⟩ := tokens_of_parse.1 _ _ hloop
  obtain ⟨-, hordered, -⟩ := tokens_of_parse.1 _ _ hset
  obtain ⟨htokens, -⟩ := tokens_of_parse.2 setTokens setTree rfl
  exact ⟨hloop, hperm, rfl, hcount, hordered (by decide), htokens⟩

end Grammar

end BraceLang
