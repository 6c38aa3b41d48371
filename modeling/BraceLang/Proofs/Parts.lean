import BraceLang.Proofs.TreeTokens

/-!
# The parts of a tree

Every expression in a tree is derived from some of the tokens of the tree, one behind another. So is
every statement, but for those that a `for` loop is only written with: its `while` loop, the blocks
in that, and its increment as a statement.
-/

namespace BraceLang

/-- The statements that a `for` loop may be written with: blocks, loops and expressions. -/
def Stmt.unrollsLoop : Stmt → Bool
  | .block _ | .loop .. | .expr _ => true
  | _ => false

namespace Grammar

def Phrase.expressions : Phrase → List Expr
  | expr _ e => e.nodes
  | arguments es | furtherArguments es => Expr.eachNodes es
  | initializer i | value i => i.toList.flatMap Expr.nodes
  | start s | form _ s | stmt _ s => s.expressions
  | stmts ss | block ss => Stmt.eachExpressions ss
  | params _ | furtherParams _ => []
  | function f => Stmt.eachExpressions f.body
  | functions fs => fs.flatMap fun f => Stmt.eachExpressions f.body

def Phrase.statements : Phrase → List Stmt
  | start s | form _ s | stmt _ s => s.nodes
  | stmts ss | block ss => Stmt.eachNodes ss
  | function f => Stmt.eachNodes f.body
  | functions fs => fs.flatMap fun f => Stmt.eachNodes f.body
  | _ => []

/-- Each of the items has its place: `P` holds of it and of some tokens one behind another. -/
def Within {α : Type} (P : α → List Token → Prop) (xs : List α) (ts : List Token) : Prop :=
  ∀ x ∈ xs, ∃ us, us <:+: ts ∧ P x us

namespace Within

variable {α : Type} {P : α → List Token → Prop} {x : α} {xs ys : List α} {us vs : List Token}

theorem nil : Within P [] us :=
  fun _ h => nomatch h

theorem mono (h : Within P xs us) (hts : us <:+: vs) : Within P xs vs := by
  intro x hx
  obtain ⟨ws, hws, hP⟩ := h x hx
  exact ⟨ws, hws.trans hts, hP⟩

theorem cons (h : P x us) (hs : Within P xs us) : Within P (x :: xs) us :=
  List.forall_mem_cons.mpr ⟨⟨us, List.infix_rfl, h⟩, hs⟩

theorem single (h : P x us) : Within P [x] us :=
  cons h nil

theorem append (h : Within P xs us) (h' : Within P ys vs) : Within P (xs ++ ys) (us ++ vs) :=
  List.forall_mem_append.mpr
    ⟨h.mono (List.prefix_append us vs).isInfix, h'.mono (List.suffix_append us vs).isInfix⟩

theorem skip {t : Token} (h : Within P xs us) : Within P xs (t :: us) :=
  h.mono (List.suffix_cons t us).isInfix

theorem concat {t : Token} (h : Within P xs us) : Within P xs (us ++ [t]) :=
  h.mono (List.prefix_append us [t]).isInfix

theorem behind (h : Within P xs us) : Within P xs (vs ++ us) :=
  h.mono (List.suffix_append vs us).isInfix

theorem subset (h : Within P xs us) (hsub : ys ⊆ xs) : Within P ys us :=
  fun x hx => h x (hsub hx)

end Within

def Expr.DerivedFrom (e : Expr) (ts : List Token) : Prop :=
  ∃ r d, Derives (.expr r e) d ts

theorem within_some {e : Expr} {ts : List Token} (h : Within Expr.DerivedFrom e.nodes ts) :
    Within Expr.DerivedFrom ((some e).toList.flatMap Expr.nodes) ts := by
  rwa [Option.toList_some, List.flatMap_singleton]

/-- The increment of a loop stands behind its body in the tree. -/
theorem expressions_forAsWhile_subset (init body : Stmt) (e i : Expr) :
    (forAsWhile init e i body).expressions ⊆
      init.expressions ++ (e.nodes ++ (i.nodes ++ body.expressions)) := by
  have hexpressions : (forAsWhile init e i body).expressions =
      init.expressions ++ (e.nodes ++ (body.expressions ++ i.nodes)) := by
    simp [forAsWhile, Stmt.expressions, Stmt.eachExpressions]
  rw [hexpressions]
  exact ((List.perm_append_comm.append_left _).append_left _).subset

/-- Every expression in the tree of a phrase is derived from tokens of the phrase. -/
theorem Derives.within_expressions {ph : Phrase} {d : Nat} {ts : List Token}
    (h : Derives ph d ts) : Within Expr.DerivedFrom ph.expressions ts := by
  induction h with
  | expression _ ih | tighter _ _ ih | stmt _ ih | blockForm _ ih => exact ih
  | assign hl ht hr ihl ihr => exact .cons ⟨_, _, .assign hl ht hr⟩ (ihl.append ihr.skip)
  | left htighter hl ht hr ihl ihr =>
    exact .cons ⟨_, _, .left htighter hl ht hr⟩ (ihl.append ihr.skip)
  | sign ht he ih => exact .cons ⟨_, _, .sign ht he⟩ ih.skip
  | pow hl ht hr ihl ihr => exact .cons ⟨_, _, .pow hl ht hr⟩ (ihl.append ihr.skip)
  | int hl => exact .single ⟨_, _, .int hl⟩
  | float ht hx => exact .single ⟨_, _, .float ht hx⟩
  | string ht => exact .single ⟨_, _, .string ht⟩
  | var ht => exact .single ⟨_, _, .var ht⟩
  | index ht ho he hc ih => exact .cons ⟨_, _, .index ht ho he hc⟩ ih.concat.skip.skip
  | call ht ho hes hc ih => exact .cons ⟨_, _, .call ht ho hes hc⟩ ih.concat.skip.skip
  | parens _ _ _ ih | block _ _ _ ih => exact ih.concat.skip
  | noArguments | noFurtherArguments | noInitializer | noValue | noStmts | noParams
  | noFurtherParams | noFunctions | array | empty | emptyStart | params | furtherParams =>
    exact .nil
  | someArguments _ _ ih ihs | stmts _ _ ih ihs => exact ih.append ihs
  | furtherArguments _ _ _ ih ihs => exact (ih.append ihs).skip
  | expr _ _ ih | exprStart _ _ ih => exact ih.concat
  | scalar _ _ _ _ ih | varStart _ _ _ _ ih => exact ih.concat.skip.skip
  | loop _ _ _ _ _ ih ihs | ifThen _ _ _ _ _ ih ihs => exact (ih.append ihs.skip).skip.skip
  | forLoop _ _ _ _ _ _ _ _ ih₀ ih₁ ih₂ ih₃ =>
    exact Within.subset (ih₀.append (ih₁.append (ih₂.append ih₃.skip).skip)).skip.skip
      (expressions_forAsWhile_subset _ _ _ _)
  | ifElse _ _ _ _ _ _ _ ih ihs ihs' =>
    exact (ih.append (ihs.append ihs'.skip).skip).skip.skip
  | result _ _ _ ih => exact ih.concat.skip
  | initializer _ _ ih => exact (within_some ih).skip
  | value _ ih => exact within_some ih
  | function _ _ _ _ _ _ _ ihb => exact ihb.skip.behind.skip.skip.skip
  | functions _ _ ih ihs =>
    rw [Phrase.expressions, List.flatMap_cons]
    exact ih.append ihs

/-- The tokens derive the statement, unless it may be one that a `for` loop is written with. -/
def Stmt.DerivedFrom (s : Stmt) (ts : List Token) : Prop :=
  s.unrollsLoop = false → ∃ o d, Derives (.form o s) d ts

theorem Derives.derivedFrom {o : Bool} {s : Stmt} {d : Nat} {ts : List Token}
    (h : Derives (.form o s) d ts) : Stmt.DerivedFrom s ts :=
  fun _ => ⟨o, d, h⟩

theorem derivedFrom_of_unrollsLoop {s : Stmt} {ts : List Token} (h : s.unrollsLoop = true) :
    Stmt.DerivedFrom s ts :=
  fun hs => absurd (h.symm.trans hs) (by decide)

/-- A `for` loop is a block around its first clause and its body, up to what it is written with. -/
theorem within_forAsWhile {init body : Stmt} {e i : Expr} {ts : List Token}
    (h : Within Stmt.DerivedFrom (init.nodes ++ body.nodes) ts) :
    Within Stmt.DerivedFrom (forAsWhile init e i body).nodes ts := by
  have hnodes : (forAsWhile init e i body).nodes = forAsWhile init e i body :: (init.nodes ++
      .loop e (.block [.block [body], .expr i]) :: .block [.block [body], .expr i] ::
      .block [body] :: (body.nodes ++ [.expr i])) := by
    simp [forAsWhile, Stmt.nodes, Stmt.eachNodes]
  obtain ⟨hinit, hbody⟩ := List.forall_mem_append.mp h
  have hunrolls {s : Stmt} (hs : s.unrollsLoop = true) :
      ∃ us, us <:+: ts ∧ Stmt.DerivedFrom s us :=
    ⟨ts, List.infix_rfl, derivedFrom_of_unrollsLoop hs⟩
  rw [hnodes]
  refine List.forall_mem_cons.mpr ⟨hunrolls rfl, List.forall_mem_append.mpr ⟨hinit, ?_⟩⟩
  refine List.forall_mem_cons.mpr ⟨hunrolls rfl, List.forall_mem_cons.mpr ⟨hunrolls rfl, ?_⟩⟩
  refine List.forall_mem_cons.mpr ⟨hunrolls rfl, List.forall_mem_append.mpr ⟨hbody, ?_⟩⟩
  exact List.forall_mem_singleton.mpr (hunrolls rfl)

/-- Every statement in the tree of a phrase is derived from tokens of the phrase, but for those that
a `for` loop is written with. -/
theorem Derives.within_statements {ph : Phrase} {d : Nat} {ts : List Token}
    (h : Derives ph d ts) : Within Stmt.DerivedFrom ph.statements ts := by
  induction h with
  | stmt _ ih => exact ih
  | expr he ht => exact .single (Derives.expr he ht).derivedFrom
  | scalar ha hb hi ht | varStart ha hb hi ht =>
    exact .single (Derives.scalar ha hb hi ht).derivedFrom
  | array ha hb ho hl hc ht => exact .single (Derives.array ha hb ho hl hc ht).derivedFrom
  | blockForm hss ih => exact .cons (Derives.blockForm hss).derivedFrom ih
  | loop hw ho he hc hs _ ihs =>
    exact .cons (Derives.loop hw ho he hc hs).derivedFrom ihs.skip.behind.skip.skip
  | forLoop _ _ _ _ _ _ _ _ ih₀ _ _ ih₃ =>
    exact within_forAsWhile (ih₀.append ih₃.skip.behind.skip.behind).skip.skip
  | ifThen hw ho he hc hs _ ihs =>
    exact .cons (Derives.ifThen hw ho he hc hs).derivedFrom ihs.skip.behind.skip.skip
  | ifElse hw ho he hc hs hl hs' _ ihs ihs' =>
    exact .cons (Derives.ifElse hw ho he hc hs hl hs').derivedFrom
      (ihs.append ihs'.skip).skip.behind.skip.skip
  | result hk hv ht => exact .single (Derives.result hk hv ht).derivedFrom
  | empty ht | emptyStart ht => exact .single (Derives.empty ht).derivedFrom
  | exprStart => exact .single (derivedFrom_of_unrollsLoop rfl)
  | block _ _ _ ih => exact ih.concat.skip
  | stmts _ _ ih ihs => exact ih.append ihs
  | function _ _ _ _ _ _ _ ihb => exact ihb.skip.behind.skip.skip.skip
  | functions _ _ ih ihs =>
    rw [Phrase.statements, List.flatMap_cons]
    exact ih.append ihs
  | _ => exact .nil

end Grammar

end BraceLang
