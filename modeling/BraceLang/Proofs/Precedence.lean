import Mathlib.Data.List.Forall2
import BraceLang.Proofs.Limit
import BraceLang.Proofs.Rereading

/-!
# Trees written with as few parentheses as possible

An expression is written in the order of its tokens, with parentheses around an operand only where
the level of precedence of the operand asks for them (`Expr.slots`). What is written in this way is
read as the expression again: the operators of each level associate to one side, so the operand on
that side needs no parentheses at its own level. Only the limit on nesting can refuse it, and the
levels are counted on the tree (`Expr.levels`).
-/

namespace BraceLang

/-- How tightly an operator binds. Signs are on level 6 and what is no operator on level 8. -/
def BinaryOp.level : BinaryOp → Nat
  | assign => 1
  | eq | ne => 2
  | lt | le | gt | ge => 3
  | add | sub => 4
  | mul | div | mod => 5
  | pow => 7

def Expr.level : Expr → Nat
  | binary op _ _ _ => op.level
  | unary _ _ _ => 6
  | _ => 8

def BinaryOp.enclosesLeft (op : BinaryOp) (level : Nat) : Bool :=
  match op with
  | assign => level = 1
  | pow => level ≤ 7
  | _ => level < op.level

def BinaryOp.enclosesRight (op : BinaryOp) (level : Nat) : Bool :=
  match op with
  | assign => false
  | pow => level < 7
  | _ => level ≤ op.level

theorem BinaryOp.level_pos (op : BinaryOp) : 1 ≤ op.level := by
  cases op <;> decide

theorem Expr.level_pos (e : Expr) : 1 ≤ e.level := by
  cases e with
  | binary op => exact op.level_pos
  | _ => exact Nat.succ_pos _

inductive Slot where
  | kept (t : Token)
  | mark (kind : Kind)
deriving DecidableEq, Repr

namespace Slot

def Holds : Slot → Token → Prop
  | kept t, u => u = t
  | mark kind, u => u.kind = kind

def enclosed (parens : Bool) (slots : List Slot) : List Slot :=
  if parens then mark .leftParen :: (slots ++ [mark .rightParen]) else slots

end Slot

open Slot in
mutual

/-- An expression in the order of its tokens, with the parentheses that it needs. -/
def Expr.slots : Expr → List Slot
  | .int literal => [kept literal.token]
  | .float _ t => [kept t]
  | .string _ t => [kept t]
  | .var t => [kept t]
  | .index t place => kept t :: mark .leftBracket :: (place.slots ++ [mark .rightBracket])
  | .call t args => kept t :: mark .leftParen :: (Expr.argumentSlots args ++ [mark .rightParen])
  | .unary _ t operand => kept t :: enclosed (operand.level < 6) operand.slots
  | .binary op t lhs rhs =>
    enclosed (op.enclosesLeft lhs.level) lhs.slots ++
      kept t :: enclosed (op.enclosesRight rhs.level) rhs.slots

def Expr.argumentSlots : List Expr → List Slot
  | [] => []
  | e :: rest => e.slots ++ Expr.furtherSlots rest

def Expr.furtherSlots : List Expr → List Slot
  | [] => []
  | e :: rest => mark .comma :: (e.slots ++ Expr.furtherSlots rest)

end

/-- The tokens are those of the expression, with marks of the right kinds between them. -/
def Expr.WrittenAs (e : Expr) (ts : List Token) : Prop :=
  List.Forall₂ Slot.Holds e.slots ts

mutual

/-- How many levels of nesting a written expression opens within its own: at an operand in
parentheses, an argument or an index, at the operand of a sign, and at the right operand of `=` and
of `^`. -/
def Expr.innerLevels : Expr → Nat
  | .int _ | .float .. | .string .. | .var _ => 0
  | .index _ place => 1 + place.innerLevels
  | .call _ args => Expr.argumentLevels args
  | .unary _ _ operand => 1 + (operand.innerLevels + (decide (operand.level < 6)).toNat)
  | .binary op _ lhs rhs =>
    max (lhs.innerLevels + (op.enclosesLeft lhs.level).toNat)
      ((rhs.innerLevels + (op.enclosesRight rhs.level).toNat) +
        if op = .assign ∨ op = .pow then 1 else 0)

def Expr.argumentLevels : List Expr → Nat
  | [] => 0
  | e :: rest => max (1 + e.innerLevels) (Expr.argumentLevels rest)

end

def Expr.levels (e : Expr) : Nat :=
  1 + e.innerLevels

open Grammar (Reads)

/-- Each token has a kind that its node is written with, and each literal the value that its text
is read as. -/
inductive Expr.Labelled : Expr → Prop
  | int {l} : Reads l → Labelled (.int l)
  | float {x t} : t.kind = .floatLiteral → Numeral.Binary64.read? t.lexeme.toList = some x →
      Labelled (.float x t)
  | string {t} : t.kind = .stringLiteral →
      Labelled (.string (Grammar.Parser.unquote t.lexeme) t)
  | var {t} : t.kind = .identifier → Labelled (.var t)
  | index {t e} : t.kind = .identifier → Labelled e → Labelled (.index t e)
  | call {t es} : t.kind = .identifier → (∀ e ∈ es, Labelled e) → Labelled (.call t es)
  | unary {op t e} : t.kind = op.kind → Labelled e → Labelled (.unary op t e)
  | binary {op t l r} : t.kind = op.kind → Labelled l → Labelled r → Labelled (.binary op t l r)

namespace Slot

variable {slots slots' : List Slot} {ts : List Token}

theorem exists_of_append (h : List.Forall₂ Holds (slots ++ slots') ts) :
    ∃ us vs, ts = us ++ vs ∧ List.Forall₂ Holds slots us ∧ List.Forall₂ Holds slots' vs := by
  induction slots generalizing ts with
  | nil => exact ⟨[], ts, rfl, .nil, h⟩
  | cons s slots ih =>
    cases h with
    | cons hs h =>
      obtain ⟨us, vs, rfl, hus, hvs⟩ := ih h
      exact ⟨_ :: us, vs, rfl, .cons hs hus, hvs⟩

theorem exists_of_kept {t : Token} (h : List.Forall₂ Holds (kept t :: slots) ts) :
    ∃ us, ts = t :: us ∧ List.Forall₂ Holds slots us := by
  cases h with
  | cons ht h =>
    obtain rfl := ht
    exact ⟨_, rfl, h⟩

theorem exists_of_mark {k : Kind} (h : List.Forall₂ Holds (mark k :: slots) ts) :
    ∃ t us, ts = t :: us ∧ t.kind = k ∧ List.Forall₂ Holds slots us := by
  cases h with
  | cons ht h => exact ⟨_, _, rfl, ht, h⟩

theorem exists_of_concat_mark {k : Kind} (h : List.Forall₂ Holds (slots ++ [mark k]) ts) :
    ∃ us t, ts = us ++ [t] ∧ t.kind = k ∧ List.Forall₂ Holds slots us := by
  obtain ⟨us, vs, rfl, hus, hvs⟩ := exists_of_append h
  obtain ⟨t, ws, rfl, ht, hws⟩ := exists_of_mark hvs
  cases hws
  exact ⟨us, t, rfl, ht, hus⟩

/-- Some token may stand in each place. -/
theorem exists_forall₂ (slots : List Slot) : ∃ ts, List.Forall₂ Holds slots ts := by
  induction slots with
  | nil => exact ⟨[], .nil⟩
  | cons s slots ih =>
    obtain ⟨ts, hts⟩ := ih
    cases s with
    | kept t => exact ⟨t :: ts, .cons rfl hts⟩
    | mark k => exact ⟨Grammar.Parser.someToken k :: ts, .cons rfl hts⟩

end Slot

theorem Expr.WrittenAs.exists_of_binary {op : BinaryOp} {t : Token} {l r : Expr} {ts : List Token}
    (h : (Expr.binary op t l r).WrittenAs ts) : ∃ us vs, ts = us ++ t :: vs ∧
      List.Forall₂ Slot.Holds (Slot.enclosed (op.enclosesLeft l.level) l.slots) us ∧
      List.Forall₂ Slot.Holds (Slot.enclosed (op.enclosesRight r.level) r.slots) vs := by
  rw [WrittenAs, slots] at h
  obtain ⟨us, ws, rfl, hus, hws⟩ := Slot.exists_of_append h
  obtain ⟨vs, rfl, hvs⟩ := Slot.exists_of_kept hws
  exact ⟨us, vs, rfl, hus, hvs⟩

namespace Grammar

def Rung.level : Rung → Nat
  | expression => 0
  | assignment => 1
  | equality => 2
  | comparison => 3
  | sum => 4
  | product => 5
  | unary => 6
  | power => 7
  | atom => 8

theorem Rung.level_injective {r r' : Rung} (h : r.level = r'.level) : r = r' := by
  cases r <;> cases r' <;> first | rfl | cases h

theorem Rung.exists_tighter {r : Rung} (hr : r ≠ .expression) (h : r.level < 8) :
    ∃ r' : Rung, r.tighter? = some r' ∧ r'.level = r.level + 1 ∧ r' ≠ .expression := by
  cases r with
  | expression => exact absurd rfl hr
  | atom => exact absurd h (by decide)
  | assignment | equality | comparison | sum | product | unary | power =>
    exact ⟨_, rfl, rfl, by decide⟩

/-- A rule reads what the rules of tighter levels read. -/
theorem Derives.loosen {r r' : Rung} {e : Expr} {d : Nat} {ts : List Token}
    (hr : r' ≠ .expression) (hle : r'.level ≤ r.level) (h : Derives (.expr r e) d ts) :
    Derives (.expr r' e) d ts := by
  induction hn : r.level - r'.level generalizing r' with
  | zero =>
    have heq : r = r' := Rung.level_injective (by omega)
    exact heq ▸ h
  | succ n ih =>
    have hmax : r.level ≤ 8 := by cases r <;> decide
    obtain ⟨r'', htighter, hlevel, hne⟩ := Rung.exists_tighter hr (by omega)
    exact .tighter htighter (ih hne (by omega) (by omega))

theorem Rung.tighter?_of_leftOp? {r : Rung} {k : Kind} {op : BinaryOp}
    (h : r.leftOp? k = some op) :
    op.level = r.level ∧ ∃ r' : Rung, r.tighter? = some r' ∧ r'.level = r.level + 1 ∧
      r' ≠ .expression := by
  cases r <;> first | cases h | (cases k <;> cases h <;> exact ⟨rfl, _, rfl, rfl, by decide⟩)

/-- What is written for an expression is derived by the rule of its level. -/
def ReadsBack (e : Expr) : Prop :=
  ∃ r : Rung, r.level = e.level ∧
    ∀ ts, e.WrittenAs ts → Derives (.expr r e) e.innerLevels ts

namespace ReadsBack

variable {e : Expr} {ts : List Token}

theorem of_atom (he : e.level = 8)
    (h : ∀ ts, e.WrittenAs ts → Derives (.expr .atom e) e.innerLevels ts) : ReadsBack e :=
  ⟨.atom, he.symm, h⟩

theorem expression (h : ReadsBack e) (hts : e.WrittenAs ts) :
    Derives (.expr .expression e) (1 + e.innerLevels) ts := by
  obtain ⟨r, hr, h⟩ := h
  have hne : r ≠ .expression := by
    rintro rfl
    have hpos := e.level_pos
    simp only [Rung.level] at hr
    omega
  rw [Nat.add_comm]
  exact (h ts hts).expression_of_rung hne

/-- An operand stands in parentheses, or is on a level that the rule reads. -/
theorem operand (h : ReadsBack e) {parens : Bool} {r : Rung} (hr : r ≠ .expression)
    (hparens : parens = false → r.level ≤ e.level)
    (hts : List.Forall₂ Slot.Holds (Slot.enclosed parens e.slots) ts) :
    Derives (.expr r e) (e.innerLevels + parens.toNat) ts := by
  cases parens with
  | false =>
    obtain ⟨r', hr', h⟩ := h
    exact (h ts hts).loosen hr (hr' ▸ hparens rfl)
  | true =>
    obtain ⟨o, us, rfl, ho, hus⟩ := Slot.exists_of_mark hts
    obtain ⟨us, c, rfl, hc, hin⟩ := Slot.exists_of_concat_mark hus
    have hinside := h.expression hin
    rw [Nat.add_comm] at hinside
    exact (Derives.parens ho hinside hc).of_atom hr

theorem index {t : Token} (ht : t.kind = .identifier) (h : ReadsBack e) :
    ReadsBack (.index t e) := by
  refine of_atom rfl fun ts hts => ?_
  rw [Expr.WrittenAs, Expr.slots] at hts
  obtain ⟨us, rfl, hus⟩ := Slot.exists_of_kept hts
  obtain ⟨o, us, rfl, ho, hus⟩ := Slot.exists_of_mark hus
  obtain ⟨us, c, rfl, hc, hin⟩ := Slot.exists_of_concat_mark hus
  rw [Expr.innerLevels]
  exact .index ht ho (h.expression hin) hc

theorem furtherArguments {es : List Expr} (h : ∀ e ∈ es, ReadsBack e)
    (hts : List.Forall₂ Slot.Holds (Expr.furtherSlots es) ts) :
    Derives (.furtherArguments es) (Expr.argumentLevels es) ts := by
  induction es generalizing ts with
  | nil =>
    rw [Expr.furtherSlots] at hts
    cases hts
    exact .noFurtherArguments
  | cons e es ih =>
    obtain ⟨he, hes⟩ := List.forall_mem_cons.mp h
    rw [Expr.furtherSlots] at hts
    obtain ⟨t, us, rfl, ht, hus⟩ := Slot.exists_of_mark hts
    obtain ⟨us, vs, rfl, hus, hvs⟩ := Slot.exists_of_append hus
    rw [Expr.argumentLevels]
    exact .furtherArguments ht (he.expression hus) (ih hes hvs)

theorem arguments {es : List Expr} (h : ∀ e ∈ es, ReadsBack e)
    (hts : List.Forall₂ Slot.Holds (Expr.argumentSlots es) ts) :
    Derives (.arguments es) (Expr.argumentLevels es) ts := by
  cases es with
  | nil =>
    rw [Expr.argumentSlots] at hts
    cases hts
    exact .noArguments
  | cons e es =>
    obtain ⟨he, hes⟩ := List.forall_mem_cons.mp h
    rw [Expr.argumentSlots] at hts
    obtain ⟨us, vs, rfl, hus, hvs⟩ := Slot.exists_of_append hts
    rw [Expr.argumentLevels]
    exact .someArguments (he.expression hus) (furtherArguments hes hvs)

theorem call {t : Token} {es : List Expr} (ht : t.kind = .identifier)
    (h : ∀ e ∈ es, ReadsBack e) : ReadsBack (.call t es) := by
  refine of_atom rfl fun ts hts => ?_
  rw [Expr.WrittenAs, Expr.slots] at hts
  obtain ⟨us, rfl, hus⟩ := Slot.exists_of_kept hts
  obtain ⟨o, us, rfl, ho, hus⟩ := Slot.exists_of_mark hus
  obtain ⟨us, c, rfl, hc, hin⟩ := Slot.exists_of_concat_mark hus
  rw [Expr.innerLevels]
  exact .call ht ho (arguments h hin) hc

theorem unary {op : UnaryOp} {t : Token} (ht : t.kind = op.kind) (h : ReadsBack e) :
    ReadsBack (.unary op t e) := by
  refine ⟨.unary, rfl, fun ts hts => ?_⟩
  rw [Expr.WrittenAs, Expr.slots] at hts
  obtain ⟨us, rfl, hus⟩ := Slot.exists_of_kept hts
  have hop : unaryOp? t.kind = some op := by rw [ht, unaryOp?_kind]
  have hle : decide (e.level < 6) = false → Rung.unary.level ≤ e.level := by
    intro hlevel
    have hnot := of_decide_eq_false hlevel
    simp only [Rung.level]
    omega
  rw [Expr.innerLevels, Nat.add_comm]
  exact .sign hop (h.operand (by decide) hle hus)

section Binary

variable {t : Token} {l r : Expr} (hl : ReadsBack l) (hr : ReadsBack r)

include hl hr

theorem assign (ht : t.kind = .equals) : ReadsBack (.binary .assign t l r) := by
  refine ⟨.assignment, rfl, fun ts hts => ?_⟩
  obtain ⟨us, vs, rfl, hus, hvs⟩ := Expr.WrittenAs.exists_of_binary hts
  have hpos := l.level_pos
  have hleft : BinaryOp.assign.enclosesLeft l.level = false → Rung.equality.level ≤ l.level := by
    intro hlevel
    have hne := of_decide_eq_false hlevel
    simp only [Rung.level]
    omega
  rw [Expr.innerLevels, if_pos (.inl rfl)]
  exact .assign (hl.operand (by decide) hleft hus) ht
    (hr.operand (by decide) (fun _ => r.level_pos) hvs)

theorem pow (ht : t.kind = .caret) : ReadsBack (.binary .pow t l r) := by
  refine ⟨.power, rfl, fun ts hts => ?_⟩
  obtain ⟨us, vs, rfl, hus, hvs⟩ := Expr.WrittenAs.exists_of_binary hts
  have hleft : BinaryOp.pow.enclosesLeft l.level = false → Rung.atom.level ≤ l.level := by
    intro hlevel
    have hnot := of_decide_eq_false hlevel
    simp only [Rung.level]
    omega
  have hright : BinaryOp.pow.enclosesRight r.level = false → Rung.power.level ≤ r.level := by
    intro hlevel
    have hnot := of_decide_eq_false hlevel
    simp only [Rung.level]
    omega
  rw [Expr.innerLevels, if_pos (.inr rfl)]
  exact .pow (hl.operand (by decide) hleft hus) ht (hr.operand (by decide) hright hvs)

/-- At its own level an operator that associates to the left takes its left operand as it is. -/
theorem left {op : BinaryOp} (hop : ¬ (op = .assign ∨ op = .pow)) (ht : t.kind = op.kind) :
    ReadsBack (.binary op t l r) := by
  obtain ⟨ρ, -, -, hρ, hne, -⟩ := exists_leftOp? hop
  obtain ⟨hlevel, ρ', htighter, hlevel', hne'⟩ := Rung.tighter?_of_leftOp? hρ
  refine ⟨ρ, hlevel.symm, fun ts hts => ?_⟩
  obtain ⟨us, vs, rfl, hus, hvs⟩ := Expr.WrittenAs.exists_of_binary hts
  have hleft : op.enclosesLeft l.level = false → ρ.level ≤ l.level := by
    intro hencloses
    have hnot : ¬ l.level < op.level := by
      cases op <;> first | exact absurd (by decide) hop | exact of_decide_eq_false hencloses
    omega
  have hright : op.enclosesRight r.level = false → ρ'.level ≤ r.level := by
    intro hencloses
    have hnot : ¬ r.level ≤ op.level := by
      cases op <;> first | exact absurd (by decide) hop | exact of_decide_eq_false hencloses
    omega
  rw [Expr.innerLevels, if_neg hop, Nat.add_zero]
  exact .left htighter (hl.operand hne hleft hus) (ht ▸ hρ) (hr.operand hne' hright hvs)

theorem binary {op : BinaryOp} (ht : t.kind = op.kind) : ReadsBack (.binary op t l r) := by
  by_cases hop : op = .assign ∨ op = .pow
  · rcases hop with rfl | rfl
    · exact hl.assign hr ht
    · exact hl.pow hr ht
  · exact hl.left hr hop ht

end Binary

end ReadsBack

theorem readsBack_of_labelled {e : Expr} (h : e.Labelled) : ReadsBack e := by
  induction h with
  | int hl =>
    refine .of_atom rfl fun ts hts => ?_
    obtain ⟨_, rfl, hnil⟩ := Slot.exists_of_kept hts
    cases hnil
    exact .int hl
  | float ht hx =>
    refine .of_atom rfl fun ts hts => ?_
    obtain ⟨_, rfl, hnil⟩ := Slot.exists_of_kept hts
    cases hnil
    exact .float ht hx
  | string ht =>
    refine .of_atom rfl fun ts hts => ?_
    obtain ⟨_, rfl, hnil⟩ := Slot.exists_of_kept hts
    cases hnil
    exact .string ht
  | var ht =>
    refine .of_atom rfl fun ts hts => ?_
    obtain ⟨_, rfl, hnil⟩ := Slot.exists_of_kept hts
    cases hnil
    exact .var ht
  | index ht _ ih => exact .index ht ih
  | call ht _ ih => exact .call ht ih
  | unary ht _ ih => exact .unary ht ih
  | binary ht _ _ ihl ihr => exact ihl.binary ihr ht

/-- With few enough levels a derived expression is the answer, and otherwise the complaint is about
the nesting of expressions. -/
theorem parseExpression_of_derives {e : Expr} {d : Nat} {ts : List Token}
    (h : Derives (.expr .expression e) d ts) :
    if d ≤ maxNesting then parseExpression ts = .ok e
    else ∃ err, parseExpression ts = .error err ∧ err.message = "Expression nested too deeply" := by
  have hmeets := h.run_wholeExpression maxNesting
  unfold Meets at hmeets
  split at hmeets
  · next hd =>
    rw [if_pos hd]
    exact answer_of_run_ok hmeets
  · next hd =>
    rw [if_neg hd]
    obtain ⟨nest, token, rest, hrun⟩ := hmeets
    refine ⟨_, answer_of_run_error hrun, ?_⟩
    have habout := compares_wholeExpression closed_aboutExpressions
      (aboutExpressionsInner_within maxNesting)
    obtain rfl := habout.nest_eq_expression hrun
    rfl

/-- There are tokens that an expression is written as with the fewest parentheses, and all such
tokens are read as the expression, unless it is nested too deeply. -/
theorem parseExpression_of_writtenAs {e : Expr} (he : e.Labelled) :
    (∃ ts, e.WrittenAs ts) ∧ ∀ ts, e.WrittenAs ts →
      if e.levels ≤ maxNesting then parseExpression ts = .ok e
      else ∃ err, parseExpression ts = .error err ∧
        err.message = "Expression nested too deeply" :=
  ⟨Slot.exists_forall₂ e.slots, fun _ hts =>
    parseExpression_of_derives ((readsBack_of_labelled he).expression hts)⟩

theorem labelled_signed (n : Nat) : (signed n).Labelled := by
  induction n with
  | zero => exact .var rfl
  | succ n ih => exact .unary rfl ih

theorem level_signed (n : Nat) : ¬ (signed n).level < 6 := by
  cases n with
  | zero => decide
  | succ n => exact Nat.lt_irrefl 6

theorem writtenAs_signed (n : Nat) : (signed n).WrittenAs
    (List.replicate n (Parser.someToken .minus) ++ [Parser.someToken .identifier]) := by
  induction n with
  | zero => exact .cons rfl .nil
  | succ n ih =>
    simp only [Expr.WrittenAs, signed, Expr.slots, Slot.enclosed, level_signed, decide_false,
      Bool.false_eq_true, if_false]
    exact .cons rfl ih

theorem levels_signed (n : Nat) : (signed n).levels = 1 + n := by
  induction n with
  | zero => rfl
  | succ n ih =>
    simp only [Expr.levels, signed, Expr.innerLevels, level_signed, decide_false, Bool.toNat_false,
      Nat.add_zero] at ih ⊢
    omega

def mixedSigns : Expr :=
  .binary .mul (Parser.someToken .star)
    (.binary .sub (Parser.someToken .minus) (signed 0) (signed 0))
    (.unary .neg (Parser.someToken .minus)
      (.binary .pow (Parser.someToken .caret) (signed 0) (signed 1)))

def mixedTokens : List Token :=
  [.leftParen, .identifier, .minus, .identifier, .rightParen, .star, .minus, .identifier, .caret,
    .leftParen, .minus, .identifier, .rightParen].map Parser.someToken

/-- The difference and the exponent are in parentheses, the power is not. Signs in a row need no
parentheses, but a level each. -/
theorem parseExpression_of_writtenAs_signs :
    parseExpression mixedTokens = .ok mixedSigns ∧
    ∃ err, parseExpression (List.replicate 256 (Parser.someToken .minus) ++
        [Parser.someToken .identifier]) = .error err ∧
      err.message = "Expression nested too deeply" := by
  constructor
  · have hlabelled : mixedSigns.Labelled :=
      .binary rfl (.binary rfl (labelled_signed 0) (labelled_signed 0))
        (.unary rfl (.binary rfl (labelled_signed 0) (labelled_signed 1)))
    have hwritten : mixedSigns.WrittenAs mixedTokens := by
      repeat (first | exact .nil | refine .cons rfl ?_)
    have hread := (parseExpression_of_writtenAs hlabelled).2 _ hwritten
    rwa [if_pos (by decide)] at hread
  · have hread (n : Nat) := (parseExpression_of_writtenAs (labelled_signed n)).2 _
      (writtenAs_signed n)
    simp only [levels_signed] at hread
    exact (if_neg (by decide)).mp (hread 256)

end Grammar

end BraceLang
