import BraceLang.Proofs.Printing
import BraceLang.Proofs.Unplaced

/-!
# The words of a printed tree derive the tree

Tokens with the words of a printed tree derive the tree again, up to the places of its tokens, and
with a depth that is known from the tree (`Expr.need`, `Stmt.need`). Each operator stands in
parentheses, so every expression is printed as an atom, and an atom is an expression of every level
of precedence.
-/

namespace BraceLang

mutual

/-- How many levels of nesting the text of an expression opens where it stands as an atom. -/
def Expr.need : Expr → Nat
  | .int _ | .float .. | .string .. | .var _ => 0
  | .index _ place => 1 + place.need
  | .call _ args => Expr.eachNeed args
  | .unary _ _ operand => 2 + operand.need
  | .binary op _ lhs rhs =>
    if op = .assign ∨ op = .pow then 1 + max lhs.need (1 + rhs.need) else 1 + max lhs.need rhs.need

def Expr.eachNeed : List Expr → Nat
  | [] => 0
  | e :: rest => max (1 + e.need) (Expr.eachNeed rest)

end

def Expr.needOf : Option Expr → Nat
  | none => 0
  | some e => 1 + e.need

mutual

/-- How many levels of nesting the text of a statement opens, its own included. -/
def Stmt.need : Stmt → Nat
  | .expr e => 1 + (1 + e.need)
  | .var _ _ init => 1 + Expr.needOf init
  | .array .. => 1
  | .block statements => 1 + Stmt.eachNeed statements
  | .loop condition body => 1 + max (1 + condition.need) body.need
  | .ifThen condition thenBranch => 1 + max (1 + condition.need) thenBranch.need
  | .ifElse condition thenBranch elseBranch =>
    1 + max (1 + condition.need) (max thenBranch.need elseBranch.need)
  | .result _ value => 1 + Expr.needOf value
  | .empty => 1

def Stmt.eachNeed : List Stmt → Nat
  | [] => 0
  | s :: rest => max s.need (Stmt.eachNeed rest)

end

def Function.eachNeed : List Function → Nat
  | [] => 0
  | f :: rest => max (Stmt.eachNeed f.body) (Function.eachNeed rest)

theorem Stmt.eachNeed_le_iff {ss : List Stmt} {n : Nat} :
    Stmt.eachNeed ss ≤ n ↔ ∀ s ∈ ss, s.need ≤ n := by
  induction ss with
  | nil => simp [eachNeed]
  | cons s ss ih => rw [eachNeed, Nat.max_le, ih, List.forall_mem_cons]

theorem Function.eachNeed_le_iff {fs : List Function} {n : Nat} :
    Function.eachNeed fs ≤ n ↔ ∀ f ∈ fs, ∀ s ∈ f.body, s.need ≤ n := by
  induction fs with
  | nil => simp [eachNeed]
  | cons f fs ih => rw [eachNeed, Nat.max_le, ih, Stmt.eachNeed_le_iff, List.forall_mem_cons]

theorem Function.lt_eachNeed_iff {fs : List Function} {n : Nat} :
    n < Function.eachNeed fs ↔ ∃ f ∈ fs, ∃ s ∈ f.body, n < s.need := by
  simp only [← Nat.not_le, Function.eachNeed_le_iff, Classical.not_forall, exists_prop]

namespace Grammar

open Piece

variable {e : Expr} {d : Nat} {ts : List Token}

/-- An atom is an expression of every level. -/
theorem Derives.of_atom {r : Rung} (hr : r ≠ .expression) (h : Derives (.expr .atom e) d ts) :
    Derives (.expr r e) d ts := by
  cases r <;> first | exact absurd rfl hr | (repeat first | exact h | refine .tighter rfl ?_)

theorem Derives.expression_of_rung {r : Rung} (hr : r ≠ .expression)
    (h : Derives (.expr r e) d ts) : Derives (.expr .expression e) (d + 1) ts := by
  refine .expression ?_
  cases r <;> first | exact absurd rfl hr | (repeat first | exact h | refine .tighter rfl ?_)

theorem Derives.expression_of_atom (h : Derives (.expr .atom e) d ts) :
    Derives (.expr .expression e) (1 + d) ts :=
  Nat.add_comm d 1 ▸ h.expression_of_rung (by decide)

theorem unaryOp?_kind (op : UnaryOp) : unaryOp? op.kind = some op := by
  cases op <;> rfl

/-- Operators other than `=` and `^` have a level whose phrases they join from the left. -/
theorem exists_leftOp? {op : BinaryOp} (h : ¬ (op = .assign ∨ op = .pow)) :
    ∃ r r' : Rung, r.tighter? = some r' ∧ r.leftOp? op.kind = some op ∧ r ≠ .expression ∧
      r' ≠ .expression := by
  cases op
  case assign => exact absurd (.inl rfl) h
  case pow => exact absurd (.inr rfl) h
  case eq | ne => exact ⟨.equality, .comparison, rfl, rfl, by decide, by decide⟩
  case lt | le | gt | ge => exact ⟨.comparison, .sum, rfl, rfl, by decide, by decide⟩
  case add | sub => exact ⟨.sum, .product, rfl, rfl, by decide, by decide⟩
  case mul | div | mod => exact ⟨.product, .unary, rfl, rfl, by decide, by decide⟩

/-- Two atoms with an operator between them, in parentheses. -/
theorem Derives.binary_atom {op : BinaryOp} {o t c : Token} {lhs rhs : Expr} {d d' : Nat}
    {ls rs : List Token} (ho : o.kind = .leftParen) (hl : Derives (.expr .atom lhs) d ls)
    (ht : t.kind = op.kind) (hr : Derives (.expr .atom rhs) d' rs) (hc : c.kind = .rightParen) :
    Derives (.expr .atom (.binary op t lhs rhs))
      (if op = .assign ∨ op = .pow then 1 + max d (1 + d') else 1 + max d d')
      (o :: ((ls ++ t :: rs) ++ [c])) := by
  by_cases hop : op = .assign ∨ op = .pow
  · rw [if_pos hop, Nat.add_comm 1, Nat.add_comm 1 d']
    rcases hop with rfl | rfl
    · have h := Derives.assign (hl.of_atom (by decide)) ht (hr.of_atom (by decide))
      exact .parens ho (h.expression_of_rung (by decide)) hc
    · have h := Derives.pow hl ht (hr.of_atom (by decide))
      exact .parens ho (h.expression_of_rung (by decide)) hc
  · rw [if_neg hop, Nat.add_comm]
    obtain ⟨r, r', htighter, hleft, hne, hne'⟩ := exists_leftOp? hop
    rw [← ht] at hleft
    have h := Derives.left htighter (hl.of_atom hne) hleft (hr.of_atom hne')
    exact .parens ho (h.expression_of_rung hne) hc

end Grammar

def Carries (ts : List Token) (ps : List Piece) : Prop :=
  ts.map Token.word = Piece.words ps

theorem Token.unplaced_eq_iff {t u : Token} : t.unplaced = u.unplaced ↔ t.word = u.word := by
  simp [unplaced, word]

/-- A kind with one spelling fixes the lexeme. -/
theorem Token.Is.lexeme_eq {t : Token} {k : Kind} {s : String} (h : t.Is k)
    (hk : k.spelling? = some s) : t.lexeme = s := by
  have hspells := h.writes.spells
  rw [← String.toList_inj]
  cases k <;> cases hk <;> (obtain ⟨s', ⟨⟩, hs'⟩ := hspells; exact hs')

namespace Carries

open Piece

variable {ts : List Token} {ps qs : List Piece}

theorem nil (h : Carries ts []) : ts = [] :=
  List.map_eq_nil_iff.mp h

theorem append (h : Carries ts (ps ++ qs)) :
    ∃ us vs, ts = us ++ vs ∧ Carries us ps ∧ Carries vs qs := by
  unfold Carries at h
  rw [words_append, List.map_eq_append_iff] at h
  exact h

theorem word {k : Kind} {text : String} (h : Carries ts (.word k text :: ps)) :
    ∃ t us, ts = t :: us ∧ t.word = (k, text) ∧ Carries us ps := by
  obtain ⟨t, us, rfl, ht, hus⟩ := List.map_eq_cons_iff.mp h
  exact ⟨t, us, rfl, ht, hus⟩

theorem mark {k : Kind} (h : Carries ts (Piece.mark k :: ps)) :
    ∃ t us, ts = t :: us ∧ t.kind = k ∧ Carries us ps := by
  obtain ⟨t, us, rfl, ht, hus⟩ := h.word
  exact ⟨t, us, rfl, (Prod.mk.inj ht).1, hus⟩

/-- The last mark behind other pieces. -/
theorem last {k : Kind} (h : Carries ts (ps ++ [Piece.mark k])) :
    ∃ us t, ts = us ++ [t] ∧ Carries us ps ∧ t.kind = k := by
  obtain ⟨us, vs, rfl, hus, hvs⟩ := h.append
  obtain ⟨t, vs, rfl, ht, hend⟩ := hvs.mark
  obtain rfl := hend.nil
  exact ⟨us, t, rfl, hus, ht⟩

theorem space (h : Carries ts (Piece.space :: ps)) : Carries ts ps := h

/-- A token that is printed by its lexeme is read as the same token at another place. -/
theorem token {k : Kind} {t : Token} (ht : t.Is k) (h : Carries ts (.word k t.lexeme :: ps)) :
    ∃ t' us, ts = t' :: us ∧ t'.kind = k ∧ t'.unplaced = t.unplaced ∧ Carries us ps := by
  obtain ⟨t', us, rfl, ht', hus⟩ := h.word
  refine ⟨t', us, rfl, (Prod.mk.inj ht').1, ?_, hus⟩
  rw [Token.unplaced_eq_iff, ht', Token.word, ht.kind]

theorem mark_token {k : Kind} {s : String} {t : Token} (ht : t.Is k) (hk : k.spelling? = some s)
    (h : Carries ts (Piece.mark k :: ps)) :
    ∃ t' us, ts = t' :: us ∧ t'.kind = k ∧ t'.unplaced = t.unplaced ∧ Carries us ps := by
  have hmark : Piece.mark k = .word k t.lexeme := by
    rw [Piece.mark, hk, ht.lexeme_eq hk, Option.getD_some]
  rw [hmark] at h
  exact h.token ht

end Carries

open Grammar Piece

theorem lexeme_eq_of_unplaced_eq {t u : Token} (h : t.unplaced = u.unplaced) :
    t.lexeme = u.lexeme :=
  (Prod.mk.inj (Token.unplaced_eq_iff.mp h)).2

def Expr.Rereads (e : Expr) : Prop :=
  ∀ ts, Carries ts e.pieces → ∃ e' : Expr, e'.unplaced = e.unplaced ∧
    Derives (.expr .atom e') e.need ts

def Expr.SameEach (es es' : List Expr) : Prop :=
  es'.map Expr.unplaced = es.map Expr.unplaced

theorem rereads_furtherArguments {es : List Expr} (h : ∀ e ∈ es, e.Rereads) {ts : List Token}
    (hts : Carries ts (es.flatMap fun e => [mark .comma, space] ++ e.pieces)) :
    ∃ es', Expr.SameEach es es' ∧ Derives (.furtherArguments es') (Expr.eachNeed es) ts := by
  induction es generalizing ts with
  | nil =>
    obtain rfl := hts.nil
    exact ⟨[], rfl, .noFurtherArguments⟩
  | cons e es ih =>
    obtain ⟨he, hes⟩ := List.forall_mem_cons.mp h
    rw [List.flatMap_cons] at hts
    obtain ⟨us, vs, rfl, hus, hvs⟩ := hts.append
    obtain ⟨t, us, rfl, ht, hus⟩ := hus.mark
    obtain ⟨e', hsame, hd⟩ := he us hus.space
    obtain ⟨es', hsames, hds⟩ := ih hes hvs
    refine ⟨e' :: es', ?_, .furtherArguments ht hd.expression_of_atom hds⟩
    rw [Expr.SameEach, List.map_cons, List.map_cons, hsame, hsames]

theorem commas_cons (ps : List Piece) (items : List (List Piece)) :
    commas (ps :: items) = ps ++ items.flatMap fun qs => [mark .comma, space] ++ qs := by
  unfold commas
  induction items generalizing ps with
  | nil => simp
  | cons qs items ih =>
    rw [List.intercalate_cons_cons, ih, List.flatMap_cons]
    simp only [List.append_assoc]

theorem rereads_arguments {es : List Expr} (h : ∀ e ∈ es, e.Rereads) {ts : List Token}
    (hts : Carries ts (commas (es.map Expr.pieces))) :
    ∃ es', Expr.SameEach es es' ∧ Derives (.arguments es') (Expr.eachNeed es) ts := by
  cases es with
  | nil =>
    obtain rfl := hts.nil
    exact ⟨[], rfl, .noArguments⟩
  | cons e es =>
    obtain ⟨he, hes⟩ := List.forall_mem_cons.mp h
    rw [List.map_cons, commas_cons, List.flatMap_map] at hts
    obtain ⟨us, vs, rfl, hus, hvs⟩ := hts.append
    obtain ⟨e', hsame, hd⟩ := he us hus
    obtain ⟨es', hsames, hds⟩ := rereads_furtherArguments hes hvs
    refine ⟨e' :: es', ?_, .someArguments hd.expression_of_atom hds⟩
    rw [Expr.SameEach, List.map_cons, List.map_cons, hsame, hsames]

theorem Grammar.Reads.relocate {l : IntLiteral} {t : Token} (h : Reads l)
    (ht : t.kind = .intLiteral) (hsame : t.unplaced = l.token.unplaced) :
    Reads ⟨l.value, t⟩ where
  kind := ht
  value := by
    rw [lexeme_eq_of_unplaced_eq hsame]
    exact h.value

namespace Expr.Rereads

variable {e : Expr} {t : Token}

theorem int {l : IntLiteral} (hl : Reads l) (hl' : l.token.Is .intLiteral) :
    (Expr.int l).Rereads := by
  intro ts hts
  obtain ⟨t, us, rfl, hk, hsame, hus⟩ := hts.token hl'
  obtain rfl := hus.nil
  refine ⟨.int ⟨l.value, t⟩, ?_, .int (hl.relocate hk hsame)⟩
  simp only [unplaced, mapTokens, hsame]

theorem float {x : Numeral.Binary64} (hx : Numeral.Binary64.read? t.lexeme.toList = some x)
    (ht : t.Is .floatLiteral) : (Expr.float x t).Rereads := by
  intro ts hts
  obtain ⟨t', us, rfl, hk, hsame, hus⟩ := hts.token ht
  obtain rfl := hus.nil
  refine ⟨.float x t', ?_, .float hk (by rwa [lexeme_eq_of_unplaced_eq hsame])⟩
  simp only [unplaced, mapTokens, hsame]

theorem string (ht : t.Is .stringLiteral) :
    (Expr.string (Parser.unquote t.lexeme) t).Rereads := by
  intro ts hts
  simp only [pieces] at hts
  rw [quoted_unquote ht.writes.spells] at hts
  obtain ⟨t', us, rfl, hk, hsame, hus⟩ := hts.token ht
  obtain rfl := hus.nil
  refine ⟨.string (Parser.unquote t'.lexeme) t', ?_, .string hk⟩
  simp only [unplaced, mapTokens, hsame, lexeme_eq_of_unplaced_eq hsame]

theorem var (ht : t.Is .identifier) : (Expr.var t).Rereads := by
  intro ts hts
  obtain ⟨t', us, rfl, hk, hsame, hus⟩ := hts.token ht
  obtain rfl := hus.nil
  refine ⟨.var t', ?_, .var hk⟩
  simp only [unplaced, mapTokens, hsame]

theorem index (ht : t.Is .identifier) (he : e.Rereads) : (Expr.index t e).Rereads := by
  intro ts hts
  rw [pieces] at hts
  obtain ⟨us, c, rfl, hus, hc⟩ := hts.last
  simp only [List.cons_append, List.nil_append] at hus
  obtain ⟨t', us, rfl, hk, hsame, hus⟩ := hus.token ht
  obtain ⟨o, us, rfl, ho, hus⟩ := hus.mark
  obtain ⟨e', hsame', hd⟩ := he us hus
  refine ⟨.index t' e', ?_, .index hk ho hd.expression_of_atom hc⟩
  simp only [unplaced, mapTokens, hsame] at hsame' ⊢
  rw [hsame']

theorem call {es : List Expr} (ht : t.Is .identifier) (hes : ∀ e ∈ es, e.Rereads) :
    (Expr.call t es).Rereads := by
  intro ts hts
  rw [pieces, eachPieces_eq_map] at hts
  obtain ⟨us, c, rfl, hus, hc⟩ := hts.last
  simp only [List.cons_append, List.nil_append] at hus
  obtain ⟨t', us, rfl, hk, hsame, hus⟩ := hus.token ht
  obtain ⟨o, us, rfl, ho, hus⟩ := hus.mark
  obtain ⟨es', hsames, hds⟩ := rereads_arguments hes hus
  refine ⟨.call t' es', ?_, .call hk ho hds hc⟩
  have hmap : es'.map (mapTokens Token.unplaced) = es.map (mapTokens Token.unplaced) := hsames
  simp only [unplaced, mapTokens, hsame, mapEach_eq_map, hmap]

/-- A sign and its operand are two levels down, in parentheses and behind the sign. -/
theorem unary {op : UnaryOp} (ht : t.Is op.kind) (he : e.Rereads) :
    (Expr.unary op t e).Rereads := by
  intro ts hts
  rw [pieces] at hts
  obtain ⟨us, c, rfl, hus, hc⟩ := hts.last
  simp only [List.cons_append, List.nil_append] at hus
  obtain ⟨o, us, rfl, ho, hus⟩ := hus.mark
  obtain ⟨t', us, rfl, hk, hsame, hus⟩ := hus.mark_token ht op.spelling_kind
  obtain ⟨e', hsame', hd⟩ := he us hus
  have hop : unaryOp? t'.kind = some op := by rw [hk, unaryOp?_kind]
  have hsign := (Derives.sign hop (hd.of_atom (by decide))).expression_of_rung (by decide)
  refine ⟨.unary op t' e', ?_, ?_⟩
  · simp only [unplaced, mapTokens, hsame] at hsame' ⊢
    rw [hsame']
  · rw [need, Nat.add_comm]
    exact .parens ho hsign hc

theorem binary {op : BinaryOp} {l r : Expr} (ht : t.Is op.kind) (hl : l.Rereads)
    (hr : r.Rereads) : (Expr.binary op t l r).Rereads := by
  intro ts hts
  rw [pieces] at hts
  obtain ⟨us, c, rfl, hus, hc⟩ := hts.last
  simp only [List.cons_append, List.nil_append, List.append_assoc] at hus
  obtain ⟨o, us, rfl, ho, hus⟩ := hus.mark
  obtain ⟨us, vs, rfl, hleft, hvs⟩ := hus.append
  obtain ⟨t', vs, rfl, hk, hsame, hright⟩ := hvs.space.mark_token ht op.spelling_kind
  obtain ⟨l', hsamel, hdl⟩ := hl us hleft
  obtain ⟨r', hsamer, hdr⟩ := hr vs hright.space
  refine ⟨.binary op t' l' r', ?_, Derives.binary_atom ho hdl hk hdr hc⟩
  simp only [unplaced, mapTokens, hsame] at hsamel hsamer ⊢
  rw [hsamel, hsamer]

end Expr.Rereads

/-- An expression that can be read is read again from its text. -/
theorem Expr.Formed.rereads {e : Expr} (h : e.Formed) : e.Rereads := by
  induction h with
  | int hl ht => exact .int hl ht
  | float hx ht => exact .float hx ht
  | string ht => exact .string ht
  | var ht => exact .var ht
  | index ht _ ih => exact .index ht ih
  | call ht _ ih => exact .call ht ih
  | unary ht _ ih => exact .unary ht ih
  | binary ht _ _ ihl ihr => exact .binary ht ihl ihr

end BraceLang
