import BraceLang.Proofs.Derivation
import BraceLang.Proofs.Words

/-!
# Trees that can be read

What the grammar and the spelling of tokens say about a tree: each token has the kind and a spelling
that its node asks for, literals have the value that they are read as, and no `if` that is still
open is the first branch of an `if` with an `else`.
-/

namespace BraceLang

structure Token.Is (k : Kind) (t : Token) : Prop where
  kind : t.kind = k
  writes : k.Writes t.lexeme.toList

/-- An `else` behind the statement would belong to an `if` at its end. -/
def Stmt.openIf : Stmt → Bool
  | .ifThen .. => true
  | .ifElse _ _ elseBranch => elseBranch.openIf
  | .loop _ body => body.openIf
  | _ => false

open Grammar (Reads)

inductive Expr.Formed : Expr → Prop
  | int {l} : Reads l → l.token.Is .intLiteral → Formed (.int l)
  | float {x t} : Numeral.Binary64.read? t.lexeme.toList = some x → t.Is .floatLiteral →
      Formed (.float x t)
  | string {t} : t.Is .stringLiteral → Formed (.string (Grammar.Parser.unquote t.lexeme) t)
  | var {t} : t.Is .identifier → Formed (.var t)
  | index {t e} : t.Is .identifier → Formed e → Formed (.index t e)
  | call {t es} : t.Is .identifier → (∀ e ∈ es, Formed e) → Formed (.call t es)
  | unary {op t e} : t.Is op.kind → Formed e → Formed (.unary op t e)
  | binary {op t l r} : t.Is op.kind → Formed l → Formed r → Formed (.binary op t l r)

inductive Stmt.Formed : Stmt → Prop
  | expr {e} : e.Formed → Formed (.expr e)
  | var {a b i} : a.Is .identifier → b.Is .identifier → (∀ e ∈ i, e.Formed) → Formed (.var a b i)
  | array {a b l} : a.Is .identifier → b.Is .identifier → Reads l → l.token.Is .intLiteral →
      Formed (.array a b l)
  | block {ss} : (∀ s ∈ ss, Formed s) → Formed (.block ss)
  | loop {e s} : e.Formed → Formed s → Formed (.loop e s)
  | ifThen {e s} : e.Formed → Formed s → Formed (.ifThen e s)
  | ifElse {e s s'} : e.Formed → Formed s → s.openIf = false → Formed s' → Formed (.ifElse e s s')
  | result {k v} : k.Is .reservedReturn → (∀ e ∈ v, e.Formed) → Formed (.result k v)
  | empty : Formed .empty

structure Param.Formed (p : Param) : Prop where
  type : p.type.Is .identifier
  name : p.name.Is .identifier

structure Function.Formed (f : Function) : Prop where
  returnType : f.returnType.Is .identifier
  name : f.name.Is .identifier
  params : ∀ p ∈ f.params, p.Formed
  body : ∀ s ∈ f.body, s.Formed

def Program.Formed (p : Program) : Prop :=
  ∀ f ∈ p.functions, f.Formed

namespace Grammar

def Phrase.Formed : Phrase → Prop
  | expr _ e => e.Formed
  | arguments es | furtherArguments es => ∀ e ∈ es, e.Formed
  | initializer i | value i => ∀ e ∈ i, e.Formed
  | start s => s.Formed
  | form o s | stmt o s => s.Formed ∧ (s.openIf = true → o = true)
  | stmts ss | block ss => ∀ s ∈ ss, s.Formed
  | params ps | furtherParams ps => ∀ p ∈ ps, p.Formed
  | function f => f.Formed
  | functions fs => ∀ f ∈ fs, f.Formed

def Spelled (ts : List Token) : Prop :=
  ∀ t ∈ ts, t.kind.Writes t.lexeme.toList

namespace Spelled

variable {t : Token} {ts us : List Token}

theorem is_token {k : Kind} (h : Spelled ts) (ht : t ∈ ts) (hk : t.kind = k) : t.Is k :=
  ⟨hk, hk ▸ h t ht⟩

theorem left (h : Spelled (ts ++ us)) : Spelled ts :=
  (List.forall_mem_append.mp h).1

theorem right (h : Spelled (ts ++ us)) : Spelled us :=
  (List.forall_mem_append.mp h).2

theorem tail (h : Spelled (t :: ts)) : Spelled ts :=
  (List.forall_mem_cons.mp h).2

end Spelled

theorem Rung.kind_of_leftOp? {r : Rung} {k : Kind} {op : BinaryOp} (h : r.leftOp? k = some op) :
    k = op.kind := by
  cases r <;> first | cases h | (cases k <;> cases h <;> rfl)

theorem kind_of_unaryOp? {k : Kind} {op : UnaryOp} (h : unaryOp? k = some op) : k = op.kind := by
  cases k <;> cases h <;> rfl

theorem formed_forAsWhile {init body : Stmt} {e i : Expr} (hinit : init.Formed) (he : e.Formed)
    (hi : i.Formed) (hbody : body.Formed) : (forAsWhile init e i body).Formed := by
  have hblock : (Stmt.block [body]).Formed := .block (by simpa using hbody)
  have hinner : (Stmt.block [.block [body], .expr i]).Formed :=
    .block (by simpa using ⟨hblock, .expr hi⟩)
  exact .block (by simpa using ⟨hinit, .loop he hinner⟩)

/-- A phrase that is derived from spelled tokens has a tree that can be read. -/
theorem Derives.formed {ph : Phrase} {d : Nat} {ts : List Token} (h : Derives ph d ts)
    (hts : Spelled ts) : ph.Formed := by
  induction h with
  | expression _ ih | tighter _ _ ih => exact ih hts
  | assign _ ht _ ihl ihr | pow _ ht _ ihl ihr =>
    exact .binary (hts.right.is_token List.mem_cons_self ht) (ihl hts.left) (ihr hts.right.tail)
  | left _ _ ht _ ihl ihr =>
    have hop := Rung.kind_of_leftOp? ht
    exact .binary (hts.right.is_token List.mem_cons_self hop) (ihl hts.left) (ihr hts.right.tail)
  | sign ht _ ih =>
    exact .unary (hts.is_token List.mem_cons_self (kind_of_unaryOp? ht)) (ih hts.tail)
  | int hl => exact .int hl (hts.is_token List.mem_cons_self hl.kind)
  | float ht hx => exact .float hx (hts.is_token List.mem_cons_self ht)
  | string ht => exact .string (hts.is_token List.mem_cons_self ht)
  | var ht => exact .var (hts.is_token List.mem_cons_self ht)
  | index ht _ _ _ ih => exact .index (hts.is_token List.mem_cons_self ht) (ih hts.tail.tail.left)
  | call ht _ _ _ ih => exact .call (hts.is_token List.mem_cons_self ht) (ih hts.tail.tail.left)
  | parens _ _ _ ih => exact ih hts.tail.left
  | noArguments | noFurtherArguments | noInitializer | noValue | noStmts | noParams
  | noFurtherParams | noFunctions => exact fun _ h => by cases h
  | someArguments _ _ ih ihs => exact List.forall_mem_cons.mpr ⟨ih hts.left, ihs hts.right⟩
  | furtherArguments _ _ _ ih ihs =>
    exact List.forall_mem_cons.mpr ⟨ih hts.tail.left, ihs hts.tail.right⟩
  | stmt _ ih => exact ih hts
  | expr _ _ ih => exact ⟨.expr (ih hts.left), fun h => by cases h⟩
  | exprStart _ _ ih => exact .expr (ih hts.left)
  | scalar ha hb _ _ ih =>
    have hinit := ih hts.tail.tail.left
    exact ⟨.var (hts.is_token List.mem_cons_self ha) (hts.is_token (by simp) hb) hinit,
      fun h => by cases h⟩
  | varStart ha hb _ _ ih =>
    have hinit := ih hts.tail.tail.left
    exact .var (hts.is_token List.mem_cons_self ha) (hts.is_token (by simp) hb) hinit
  | array ha hb _ hl =>
    exact ⟨.array (hts.is_token List.mem_cons_self ha) (hts.is_token (by simp) hb) hl
      (hts.is_token (by simp) hl.kind), fun h => by cases h⟩
  | blockForm _ ih => exact ⟨.block (ih hts), fun h => by cases h⟩
  | loop _ _ _ _ _ ih ihs =>
    have he := ih hts.tail.tail.left
    obtain ⟨hs, hopen⟩ := ihs hts.tail.tail.right.tail
    exact ⟨.loop he hs, hopen⟩
  | forLoop _ _ _ _ _ _ _ _ ih₀ ih₁ ih₂ ih₃ =>
    have hinit := ih₀ hts.tail.tail.left
    have hrest := hts.tail.tail.right
    have he := ih₁ hrest.left
    have hi := ih₂ hrest.right.tail.left
    have hbody := (ih₃ hrest.right.tail.right.tail).1
    exact ⟨formed_forAsWhile hinit he hi hbody, fun h => by cases h⟩
  | ifThen _ _ _ _ _ ih ihs =>
    have he := ih hts.tail.tail.left
    exact ⟨.ifThen he (ihs hts.tail.tail.right.tail).1, fun _ => rfl⟩
  | ifElse _ _ _ _ _ _ _ ih ihs ihs' =>
    have he := ih hts.tail.tail.left
    have hbranches := hts.tail.tail.right.tail
    obtain ⟨hs, hopen⟩ := ihs hbranches.left
    obtain ⟨hs', hopen'⟩ := ihs' hbranches.right.tail
    exact ⟨.ifElse he hs (by simpa using hopen) hs', hopen'⟩
  | result hk _ _ ih =>
    have hvalue := ih hts.tail.left
    exact ⟨.result (hts.is_token List.mem_cons_self hk) hvalue, fun h => by cases h⟩
  | empty => exact ⟨.empty, fun h => by cases h⟩
  | emptyStart => exact .empty
  | initializer _ _ ih =>
    rintro _ ⟨⟩
    exact ih hts.tail
  | value _ ih =>
    rintro _ ⟨⟩
    exact ih hts
  | block _ _ _ ih => exact ih hts.tail.left
  | stmts _ _ ih ihs => exact List.forall_mem_cons.mpr ⟨(ih hts.left).1, ihs hts.right⟩
  | params ha hb _ ih =>
    exact List.forall_mem_cons.mpr
      ⟨⟨hts.is_token List.mem_cons_self ha, hts.is_token (by simp) hb⟩, ih hts.tail.tail⟩
  | furtherParams _ ha hb _ ih =>
    exact List.forall_mem_cons.mpr
      ⟨⟨hts.is_token (by simp) ha, hts.is_token (by simp) hb⟩, ih hts.tail.tail.tail⟩
  | function ha hb _ _ _ _ ihp ihb =>
    have hparams := ihp hts.tail.tail.tail.left
    have hbody := ihb hts.tail.tail.tail.right.tail
    exact ⟨hts.is_token List.mem_cons_self ha, hts.is_token (by simp) hb, hparams, hbody⟩
  | functions _ _ ih ihs => exact List.forall_mem_cons.mpr ⟨ih hts.left, ihs hts.right⟩

end Grammar

end BraceLang
