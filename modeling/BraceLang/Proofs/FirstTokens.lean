import BraceLang.Compile
import BraceLang.Proofs.Parts
import BraceLang.Proofs.Partition

/-!
# Nodes stand where their first token starts

The tokens of a source start at increasing places. The place of an expression is the start of the
first token that is kept of it, and so is that of a statement that a parser gives, if any token is
kept: the increment of a `for` loop moves behind its body, but never in front of its condition,
which always has a token. In the blocks that the loop is written with this fails, because there the
body comes first.
-/

namespace BraceLang

open Grammar

def StartsIncrease (ts : List Token) : Prop :=
  ts.Pairwise fun t u => t.start.Before u.start

theorem startsIncrease_tokens (source : String) : StartsIncrease (tokenize source).tokens := by
  have h : Describes source.toList 0 (chunks source.toList) :=
    describes_chunks (Nat.zero_le _) List.drop_zero
  have htokens : (tokenize source).tokens = _ := h.tokens
  have hnonempty : ∀ p ∈ stretches source.toList 0 (chunks source.toList), p.start < p.stop :=
    fun p hp => (h.fits p hp).nonempty
  have hcontent {p : Stretch} {t : Token} (ht : p.token? = some t) : p.content = .token t := by
    rcases p with ⟨content, start, stop⟩
    cases content <;> cases ht
    rfl
  rw [StartsIncrease, htokens, List.pairwise_filterMap]
  refine (h.abut.pairwise hnonempty).imp_of_mem fun {p q} hp hq hpq t ht u hu => ?_
  have hlt := hnonempty p hp
  have hin := (h.fits q hq).inside
  have hq' := hnonempty q hq
  rw [((h.fits p hp).token t (hcontent ht)).2.1, ((h.fits q hq).token u (hcontent hu)).2.1]
  exact placeAt_before (by omega) (by omega)

/-- One of the tokens starts at the place, and none in front of it. -/
structure Location.FirstOf (p : Location) (ts : List Token) : Prop where
  starts : ∃ t ∈ ts, t.start = p
  least : ∀ t ∈ ts, t.start = p ∨ p.Before t.start

theorem StartsIncrease.firstOf_head {t : Token} {ts : List Token} (h : StartsIncrease (t :: ts)) :
    t.start.FirstOf (t :: ts) where
  starts := ⟨t, List.mem_cons_self, rfl⟩
  least := List.forall_mem_cons.mpr ⟨.inl rfl, fun u hu => .inr ((List.pairwise_cons.mp h).1 u hu)⟩

theorem Location.FirstOf.perm {p : Location} {us ts : List Token} (h : p.FirstOf ts)
    (hperm : us.Perm ts) : p.FirstOf us where
  starts := by
    obtain ⟨t, ht, hp⟩ := h.starts
    exact ⟨t, hperm.mem_iff.mpr ht, hp⟩
  least u hu := h.least u (hperm.mem_iff.mp hu)

/-- `us` are some of the tokens `ts`, and the one that is first among `ts` starts at the place. -/
def Leads (l : Option Location) (us ts : List Token) : Prop :=
  ∃ vs : List Token, vs.Perm us ∧ vs.Sublist ts ∧ vs.head?.map Token.start = l

namespace Leads

variable {l l' : Option Location} {t : Token} {us us' ts ts' : List Token}

theorem nil : Leads none [] ts :=
  ⟨[], .refl _, List.nil_sublist ts, rfl⟩

theorem append (h : Leads l us ts) (h' : Leads l' us' ts') :
    Leads (l.or l') (us ++ us') (ts ++ ts') := by
  obtain ⟨vs, hperm, hsub, rfl⟩ := h
  obtain ⟨vs', hperm', hsub', rfl⟩ := h'
  refine ⟨vs ++ vs', hperm.append hperm', hsub.append hsub', ?_⟩
  rw [List.head?_append, Option.map_or]

theorem keep (h : Leads l us ts) : Leads (some t.start) (t :: us) (t :: ts) := by
  obtain ⟨vs, hperm, hsub, -⟩ := h
  exact ⟨t :: vs, hperm.cons t, hsub.cons_cons t, rfl⟩

theorem skip (h : Leads l us ts) : Leads l us (t :: ts) := by
  obtain ⟨vs, hperm, hsub, hl⟩ := h
  exact ⟨vs, hperm, hsub.cons t, hl⟩

theorem concat (h : Leads l us ts) : Leads l us (ts ++ [t]) := by
  obtain ⟨vs, hperm, hsub, hl⟩ := h
  exact ⟨vs, hperm, hsub.trans (List.sublist_append_left ts [t]), hl⟩

theorem of_perm (h : Leads l us ts) (hperm : us'.Perm us) : Leads l us' ts := by
  obtain ⟨vs, hvs, hsub, hl⟩ := h
  exact ⟨vs, hvs.trans hperm.symm, hsub, hl⟩

theorem eq_none_iff (h : Leads l us ts) : l = none ↔ us = [] := by
  obtain ⟨vs, hperm, -, rfl⟩ := h
  rw [Option.map_eq_none_iff, List.head?_eq_none_iff, ← List.length_eq_zero_iff,
    ← List.length_eq_zero_iff, hperm.length_eq]

theorem firstOf {p : Location} (h : Leads (some p) us ts) (hts : StartsIncrease ts) :
    p.FirstOf us := by
  obtain ⟨vs, hperm, hsub, hl⟩ := h
  obtain ⟨t, ht, rfl⟩ := Option.map_eq_some_iff.mp hl
  obtain ⟨vs, rfl⟩ := List.head?_eq_some_iff.mp ht
  exact (StartsIncrease.firstOf_head (List.Pairwise.sublist hsub hts)).perm hperm.symm

end Leads

theorem Expr.head?_tokens (e : Expr) : e.tokens.head?.map Token.start = some e.location := by
  induction e with
  | binary op operator lhs rhs ihl _ =>
    rw [tokens, List.head?_append, Option.map_or, ihl]
    rfl
  | _ => rfl

namespace Grammar

theorem Derives.leads_expression {r : Rung} {e : Expr} {d : Nat} {ts : List Token}
    (h : Derives (.expr r e) d ts) : Leads (some e.location) e.tokens ts := by
  have htokens : e.tokens = ts.filter Token.isKept := h.tokens_eq_filter rfl
  exact ⟨e.tokens, .refl _, htokens ▸ List.filter_sublist, e.head?_tokens⟩

theorem leads_some {e : Expr} {d : Nat} {ts : List Token}
    (h : Derives (.expr .expression e) d ts) :
    Leads (some e.location) ((some e).toList.flatMap Expr.tokens) ts := by
  rw [Option.toList_some, List.flatMap_singleton]
  exact h.leads_expression

def Phrase.location? : Phrase → Option Location
  | start s | form _ s | stmt _ s => s.location
  | stmts ss | block ss => Stmt.firstLocation ss
  | initializer i | value i => i.map Expr.location
  | _ => none

def Phrase.ofStatements : Phrase → Bool
  | start _ | form .. | stmt .. | stmts _ | block _ | initializer _ | value _ => true
  | _ => false

theorem Derives.leads {ph : Phrase} {d : Nat} {ts : List Token} (h : Derives ph d ts)
    (hs : ph.ofStatements) : Leads ph.location? ph.tokens ts := by
  induction h with
  | stmt _ ih | blockForm _ ih => exact ih rfl
  | expr he _ | exprStart he _ => exact he.leads_expression.concat
  | scalar _ _ _ _ ih | varStart _ _ _ _ ih => exact (ih rfl).concat.keep.keep
  | array => exact Leads.nil.keep.skip.keep.keep
  | loop _ _ he _ _ _ ihs | ifThen _ _ he _ _ _ ihs =>
    exact (he.leads_expression.append (ihs rfl).skip).skip.skip
  | forLoop _ _ _ he _ hi _ _ ih₀ _ _ ih₃ =>
    refine Leads.of_perm ?_ (tokens_forAsWhile_perm _ _ _ _)
    exact ((ih₀ rfl).append (he.leads_expression.append
      (hi.leads_expression.append (ih₃ rfl).skip).skip)).skip.skip
  | ifElse _ _ he _ _ _ _ _ ihs ihs' =>
    exact (he.leads_expression.append ((ihs rfl).append (ihs' rfl).skip).skip).skip.skip
  | result _ _ _ ih => exact (ih rfl).concat.keep
  | empty | emptyStart | noInitializer | noValue | noStmts => exact .nil
  | initializer _ he => exact (leads_some he).skip
  | value he => exact leads_some he
  | block _ _ _ ih => exact (ih rfl).concat.skip
  | stmts _ _ ih ihs => exact (ih rfl).append (ihs rfl)
  | _ => cases hs

end Grammar

/-- The statement stands where its first token starts, and nowhere if it keeps no token. -/
structure Stmt.StandsFirst (s : Stmt) : Prop where
  none_iff : s.location = none ↔ s.tokens = []
  firstOf : ∀ p, s.location = some p → p.FirstOf s.tokens

theorem Leads.standsFirst {s : Stmt} {ts : List Token} (h : Leads s.location s.tokens ts)
    (hts : StartsIncrease ts) : s.StandsFirst where
  none_iff := h.eq_none_iff
  firstOf _ hp := Leads.firstOf (hp ▸ h) hts

/-- The statement is given by the parser of statements or by that of the start of a loop. Parsers
are called for what is left of the tokens, with some levels of nesting left, so every call in the
course of a parse is among these. -/
def Stmt.ReadAmong (ts : List Token) (s : Stmt) : Prop :=
  ∃ i room, (Parser.statement (.within room) (ts.drop i)).result = .ok s ∨
    (Parser.forStart (.within room) (ts.drop i)).result = .ok s

/-- What a parser of statements gives is derived from tokens at the front. -/
theorem Grammar.Sound.exists_derives {room : Nat} {p : Parser Stmt} {D : Language Stmt}
    (hp : Sound room p D) {ts : List Token} {s : Stmt} (h : (p ts).result = .ok s) :
    ∃ d c, c <+: ts ∧ ∃ rest, D d c rest s := by
  have hts := (hp ts).explains
  have hrun : Parser.run p ts = (.ok s, (p ts).rest) := Prod.ext h rfl
  rw [hrun] at hts
  obtain ⟨d, c, -, hc, hD⟩ := hts
  exact ⟨d, c, ⟨_, hc.symm⟩, _, hD⟩

theorem Stmt.ReadAmong.exists_leads {ts : List Token} {s : Stmt} (h : s.ReadAmong ts) :
    ∃ us, us <:+: ts ∧ Leads s.location s.tokens us := by
  obtain ⟨i, room, h | h⟩ := h
  · obtain ⟨d, c, hc, rest, o, hd, -⟩ :=
      (Parser.statement_sound (Parser.inner_within room)).exists_derives h
    exact ⟨c, hc.isInfix.trans (List.drop_suffix i ts).isInfix, hd.leads rfl⟩
  · obtain ⟨d, c, hc, rest, hd⟩ :=
      (Parser.forStart_sound (Parser.inner_within room)).exists_derives h
    exact ⟨c, hc.isInfix.trans (List.drop_suffix i ts).isInfix, Derives.leads hd rfl⟩

/-- In the tree of a source every expression stands where the first of its tokens starts, and so
does every statement that is read, or it has no place and no token. -/
theorem location_firstOf (source : String) :
    (∀ p, compile source = .ok p → ∀ e ∈ p.expressions, e.location.FirstOf e.tokens) ∧
    ∀ s : Stmt, s.ReadAmong (tokenize source).tokens → s.StandsFirst := by
  have hstarts := startsIncrease_tokens source
  constructor
  · intro p hp e he
    obtain ⟨d, -, hd⟩ := (recognizes_parseProgram.ok_iff _ _).mp (compile_ok_iff.mp hp).2
    obtain ⟨us, hus, r, d', he⟩ := hd.within_expressions e he
    exact he.leads_expression.firstOf (hstarts.sublist hus.sublist)
  · intro s hs
    obtain ⟨us, hus, hleads⟩ := hs.exists_leads
    exact hleads.standsFirst (hstarts.sublist hus.sublist)

/-- A loop whose increment stands in front of its body in the source and behind it in the tree. -/
def loopSource : String :=
  "f g()\x7bfor(;a;b)c;\x7d"

def loopRead : Except Failure Stmt :=
  (Parser.statement (.within 256) ((tokenize loopSource).tokens.drop 5)).result

/-- The loop stands at its condition, and all its expressions where they are. -/
theorem location_firstOf_loop :
    (∃ p, compile loopSource = .ok p ∧
      p.expressions.map Expr.location = [⟨1, 12⟩, ⟨1, 16⟩, ⟨1, 14⟩] ∧
      ∀ e ∈ p.expressions, e.location.FirstOf e.tokens) ∧
    ∃ s : Stmt, s.ReadAmong (tokenize loopSource).tokens ∧ s.location = some ⟨1, 12⟩ ∧
      s.tokens.map Token.start = [⟨1, 12⟩, ⟨1, 16⟩, ⟨1, 14⟩] ∧ s.StandsFirst := by
  constructor
  · have hplaces : (compile loopSource).toOption.map (fun p => p.expressions.map Expr.location) =
        some [⟨1, 12⟩, ⟨1, 16⟩, ⟨1, 14⟩] := by decide +kernel
    obtain ⟨p, hp, hplaces⟩ := exists_of_map_toOption hplaces
    exact ⟨p, hp, hplaces, (location_firstOf loopSource).1 p hp⟩
  · have hread : loopRead.toOption.map (fun s => (s.location, s.tokens.map Token.start)) =
        some (some ⟨1, 12⟩, [⟨1, 12⟩, ⟨1, 16⟩, ⟨1, 14⟩]) := by decide +kernel
    cases hs : loopRead with
    | error e => simp [hs, Except.toOption] at hread
    | ok s =>
      obtain ⟨hlocation, hstarts⟩ : s.location = _ ∧ s.tokens.map Token.start = _ := by
        simpa [hs, Except.toOption] using hread
      have hamong : s.ReadAmong (tokenize loopSource).tokens := ⟨5, 256, .inl hs⟩
      exact ⟨s, hamong, hlocation, hstarts, (location_firstOf loopSource).2 s hamong⟩

end BraceLang
