import BraceLang.Proofs.Relocation
import BraceLang.Proofs.Steady

/-!
# Two tokens ahead

A parser looks at the token it stands at and at the one behind it, and at no other. So a run that
leaves two tokens ends in the same way whatever stands behind these two (`SightedAt.ahead`). It
always has a token to point at where one is left (`Failure.StopsAt`). The end of the tokens only
stops it at the end, or one token before it, where it stands at a name that may start a statement:
there the second token decides whether the name is a type.

Unlike a steady parser one that is nested too deeply is covered as well. It stops before a name that
it would otherwise have looked behind, so it takes the second token to settle that it gets there.
-/

namespace BraceLang.Grammar

open BraceLang.Grammar.Parser

variable {α β : Type} {spare : Nat}

/-- A failure points at a token if one is left. About the end of the tokens it is only with no more
than `spare` tokens left, which are names, and it points at the first of them. -/
structure Failure.StopsAt (spare : Nat) (e : Failure) (rest : List Token) : Prop where
  pointed : e.token = none → rest = []
  ended : e.cause = .endOfInput →
    e.token = rest.head? ∧ rest.length ≤ spare ∧ ∀ t ∈ rest, t.kind = .identifier

/-- What the run on some tokens depends on, and where it stops. -/
structure SightedAt (spare : Nat) (p : Parser α) (ts : List Token) : Prop where
  suffix : (run p ts).2 <:+ ts
  ahead : ∀ {u x r res}, ts = u ++ x → run p ts = (res, r ++ x) → 2 ≤ r.length →
    ∀ x', run p (u ++ x') = (res, r ++ x')
  stops : ∀ {e rest}, run p ts = (.error e, rest) → e.StopsAt spare rest

def Sighted (spare : Nat) (p : Parser α) : Prop :=
  ∀ ts, SightedAt spare p ts

namespace SightedAt

theorem congr {p q : Parser α} {ts : List Token} (h : ∀ us, run p us = run q us)
    (hq : SightedAt spare q ts) : SightedAt spare p ts where
  suffix := by
    rw [h]
    exact hq.suffix
  ahead hts hrun hr x' := by
    rw [h] at hrun ⊢
    exact hq.ahead hts hrun hr x'
  stops hrun := hq.stops (h ts ▸ hrun)

/-- With no tokens there are no two tokens left. -/
theorem nil {p : Parser α} (hrest : (run p []).2 = [])
    (hstops : ∀ e, (run p []).1 = .error e → e.cause = .endOfInput → e.token = none) :
    SightedAt spare p [] where
  suffix := ⟨[], hrest⟩
  ahead {u x r res} _ hrun hr := by
    rw [hrun] at hrest
    obtain ⟨rfl, -⟩ := List.append_eq_nil_iff.mp hrest
    simp at hr
  stops {e rest} hrun := by
    rw [hrun] at hrest hstops
    obtain rfl : rest = [] := hrest
    exact ⟨fun _ => rfl, fun hc => ⟨hstops e rfl hc, Nat.zero_le _, nofun⟩⟩

/-- On tokens with the same first one the parsers do the same. -/
theorem of_cons {p q : Parser α} {t : Token} {rest : List Token}
    (h : ∀ us, run p (t :: us) = run q (t :: us)) (hq : SightedAt spare q (t :: rest)) :
    SightedAt spare p (t :: rest) where
  suffix := by
    rw [h]
    exact hq.suffix
  ahead {u x r res} hts hrun hr x' := by
    rw [h] at hrun
    rcases u with _ | ⟨t', u⟩
    · have hle := hq.suffix.length_le
      rw [hrun, hts, List.nil_append, List.length_append] at hle
      omega
    · obtain ⟨rfl, -⟩ := List.cons.inj hts
      rw [List.cons_append, h]
      exact hq.ahead hts hrun hr x'
  stops hrun := hq.stops (h rest ▸ hrun)

/-- A parser that only takes the first token. -/
theorem of_taken {p : Parser α} {a : α} {t : Token} (h : ∀ us, run p (t :: us) = (.ok a, us))
    (rest : List Token) : SightedAt spare p (t :: rest) where
  suffix := by
    rw [h]
    exact List.suffix_cons t rest
  ahead {u x r res} hts hrun _ x' := by
    rw [h] at hrun
    obtain ⟨rfl, rfl⟩ := Prod.mk.inj hrun
    rw [← List.cons_append] at hts
    obtain rfl : t :: r = u := List.append_cancel_right hts
    exact h (r ++ x')
  stops hrun := by
    rw [h] at hrun
    cases hrun

/-- A parser that takes nothing and decides by the first two tokens. -/
theorem of_look {p : Parser α} {g : List Token → Except Failure α}
    (hrun : ∀ us, run p us = (g us, us)) (hg : ∀ t t' x x', g (t :: t' :: x) = g (t :: t' :: x'))
    {ts : List Token} (hstops : ∀ e, g ts = .error e → e.StopsAt spare ts) :
    SightedAt spare p ts where
  suffix := ⟨[], congrArg Prod.snd (hrun ts)⟩
  ahead {u x r res} hts hrun' hr x' := by
    rw [hrun] at hrun' ⊢
    obtain ⟨rfl, hrest⟩ := Prod.mk.inj hrun'
    rw [hts] at hrest ⊢
    obtain rfl : u = r := List.append_cancel_right hrest
    match u, hr with
    | t :: t' :: u, _ => exact congrArg (·, t :: t' :: u ++ x') (hg t t' _ _)
  stops {e rest} hrun' := by
    rw [hrun] at hrun'
    obtain ⟨he, rfl⟩ := Prod.mk.inj hrun'
    exact hstops e he

theorem bind {p : Parser α} {f : α → Parser β} {ts : List Token} (hp : SightedAt spare p ts)
    (hf : ∀ a rest, run p ts = (.ok a, rest) → SightedAt spare (f a) rest) :
    SightedAt spare (p >>= f) ts := by
  have hsuffix := hp.suffix
  rcases hmid : run p ts with ⟨e | a, mid⟩ <;> rw [hmid] at hsuffix
  · have hbind := run_bind_of_error f hmid
    refine ⟨by rwa [hbind], fun hts hrun hr x' => ?_, fun hrun => ?_⟩ <;> rw [hbind] at hrun
    · obtain ⟨rfl, rfl⟩ := Prod.mk.inj hrun
      exact run_bind_of_error f (hp.ahead hts hmid hr x')
    · cases hrun
      exact hp.stops hmid
  · have hbind := run_bind_of_ok f hmid
    have hfa := hf a mid hmid
    refine ⟨by rw [hbind]; exact hfa.suffix.trans hsuffix, fun {u x r res} hts hrun hr x' => ?_,
      fun hrun => hfa.stops (hbind ▸ hrun)⟩
    rw [hbind] at hrun
    obtain ⟨c, hc⟩ := hfa.suffix
    rw [hrun, ← List.append_assoc] at hc
    subst hc
    have hcr : 2 ≤ (c ++ r).length := by
      rw [List.length_append]
      omega
    rw [run_bind_of_ok f (hp.ahead hts hmid hcr x')]
    exact hfa.ahead rfl hrun hr x'

end SightedAt

namespace Sighted

theorem congr {p q : Parser α} (h : ∀ us, run p us = run q us) (hq : Sighted spare q) :
    Sighted spare p :=
  fun ts => (hq ts).congr h

theorem pure (a : α) : Sighted spare (Pure.pure a : Parser α) :=
  fun _ => .of_look (g := fun _ => .ok a) (run_pure a) (fun _ _ _ _ => rfl) fun _ he => by cases he

theorem failAt (t : Token) {cause : Cause} (h : cause ≠ .endOfInput) :
    Sighted spare (Parser.failAt (some t) cause : Parser α) :=
  fun _ => .of_look (g := fun _ => .error ⟨cause, some t⟩) (run_failAt (some t) cause)
    (fun _ _ _ _ => rfl) <| by
      rintro _ ⟨⟩
      exact ⟨nofun, fun hc => absurd hc h⟩

theorem fail {cause : Cause} (h : cause ≠ .endOfInput) :
    Sighted spare (Parser.fail cause : Parser α) :=
  fun _ => .of_look (g := fun us => .error ⟨cause, us.head?⟩) (run_fail cause)
    (fun _ _ _ _ => rfl) <| by
      rintro _ ⟨⟩
      exact ⟨List.head?_eq_none_iff.mp, fun hc => absurd hc h⟩

theorem bind {p : Parser α} {f : α → Parser β} (hp : Sighted spare p)
    (hf : ∀ a, Sighted spare (f a)) : Sighted spare (p >>= f) :=
  fun ts => (hp ts).bind fun a rest _ => hf a rest

theorem map {p : Parser α} (f : α → β) (hp : Sighted spare p) : Sighted spare (f <$> p) :=
  (hp.bind fun a => pure (f a)).congr (run_map f p)

theorem enter_bind {rule : Production} {f : Unit → Parser β} (h : Sighted spare (f ())) :
    Sighted spare (enter rule >>= f) :=
  h.congr (run_enter_bind rule f)

theorem deeper {p : Parser α} (h : Sighted spare p) : Sighted spare p.deeper :=
  h.congr (run_deeper p)

theorem take {expected : Kind} {cause : Kind → Cause} (h : ∀ k, cause k ≠ .endOfInput) :
    Sighted spare (Parser.take expected cause) := by
  intro ts
  cases ts with
  | nil => exact .nil rfl (by rintro _ ⟨⟩ -; rfl)
  | cons t rest =>
    by_cases ht : t.kind = expected
    · exact .of_taken (fun us => run_take_of_kind us cause ht) rest
    · exact .of_cons (q := Parser.fail (cause t.kind)) (fun us => run_take_of_ne us cause ht)
        (fail (h t.kind) (t :: rest))

theorem expect (expected : Kind) : Sighted spare (Parser.expect expected) :=
  take fun _ => nofun

theorem expect_bind {expected : Kind} {f : Token → Parser β} (hf : ∀ t, Sighted spare (f t)) :
    Sighted spare (Parser.expect expected >>= f) :=
  (expect expected).bind hf

theorem require_bind {expected : Kind} {place : Place} {f : Token → Parser β}
    (hf : ∀ t, Sighted spare (f t)) : Sighted spare (require expected place >>= f) := by
  have hrequire : Sighted spare (require expected place) := take fun _ => nofun
  exact hrequire.bind hf

/-- What is done after a look at the current token, which is known where it is done. -/
theorem current_bind_at {f : Kind → Parser β}
    (hf : ∀ t rest, SightedAt spare (f t.kind) (t :: rest)) : Sighted spare (current >>= f) := by
  intro ts
  cases ts with
  | nil => exact .nil rfl (by rintro _ ⟨⟩ -; rfl)
  | cons t rest => exact .of_cons (run_current_cons_bind f t) (hf t rest)

theorem current_bind {f : Kind → Parser β} (hf : ∀ k, Sighted spare (f k)) :
    Sighted spare (current >>= f) :=
  current_bind_at fun t rest => hf t.kind (t :: rest)

theorem current?_bind {f : Option Kind → Parser β} (hf : ∀ k, Sighted spare (f k)) :
    Sighted spare (current? >>= f) := by
  have hlook : Sighted spare current? := fun _ =>
    .of_look (g := fun us => .ok (headKind? us)) (fun _ => rfl) (fun _ _ _ _ => rfl)
      fun _ he => by cases he
  exact hlook.bind hf

theorem following?_bind {f : Option Kind → Parser β} (hf : ∀ k, Sighted spare (f k)) :
    Sighted spare (following? >>= f) := by
  have hlook : Sighted spare following? := fun _ =>
    .of_look (g := fun us => .ok (us[1]?.map Token.kind)) (fun _ => rfl) (fun _ _ _ _ => rfl)
      fun _ he => by cases he
  exact hlook.bind hf

/-- Behind a name a further token has to be there, or else that name is left. -/
theorem following_bind_at {f : Kind → Parser β} {t : Token} (ht : t.kind = .identifier)
    (rest : List Token) (hf : ∀ k, Sighted 1 (f k)) :
    SightedAt 1 (following >>= f) (t :: rest) := by
  have hlook : SightedAt 1 following (t :: rest) := by
    refine .of_look (g := fun us => (following us).result) (fun us => ?_) (fun _ _ _ _ => rfl)
      fun e he => ?_
    · rcases us with _ | ⟨t, _ | ⟨u, us⟩⟩ <;> rfl
    · rcases rest with _ | ⟨u, rest⟩
      · cases he
        exact ⟨nofun, fun _ => ⟨rfl, Nat.le_refl 1, by simpa using ht⟩⟩
      · cases he
  exact hlook.bind fun k rest' _ => hf k rest'

theorem accept?_bind {γ : Type} {table : Kind → Option γ} {f : Option (γ × Token) → Parser β}
    (hn : Sighted spare (f none)) (hs : ∀ op, Sighted spare (f (some op))) :
    Sighted spare (accept? table >>= f) := by
  have haccept : Sighted spare (accept? table) := by
    intro ts
    cases ts with
    | nil => exact .nil rfl (by rintro _ ⟨⟩)
    | cons t rest =>
      cases ht : table t.kind with
      | none =>
        exact .of_cons (q := Pure.pure none) (fun us => by simp [run, accept?, ht]) (pure none _)
      | some op =>
        exact .of_taken (a := some (op, t)) (fun us => by simp [run, accept?, ht]) rest
  refine haccept.bind fun op => ?_
  cases op with
  | none => exact hn
  | some op => exact hs op

/-- Parsers that agree with sighted ones on tokens of any given length are sighted. -/
theorem of_bounded {p : Parser α} {q : List Token → Parser α}
    (hq : ∀ bound, Sighted spare (q bound))
    (h : ∀ {ts bound : List Token}, ts.length ≤ bound.length → run p ts = run (q bound) ts) :
    Sighted spare p := fun ts =>
  { suffix := by
      rw [h (Nat.le_refl _)]
      exact (hq ts ts).suffix
    ahead := fun {u x r res} hts hrun hr x' => by
      have hx : ts.length ≤ (u ++ x ++ x').length := by simp [hts]
      have hx' : (u ++ x').length ≤ (u ++ x ++ x').length := by simp
      rw [h hx] at hrun
      rw [h hx']
      exact (hq _ ts).ahead hts hrun hr x'
    stops := fun hrun => (hq ts ts).stops (h (Nat.le_refl ts.length) ▸ hrun) }

theorem many {test : Parser Bool} {item : Parser α} (hlooks : Looks test)
    (ht : Sighted spare test) (hi : Sighted spare item) (hp : Progresses item) :
    Sighted spare (many test item) := by
  refine of_bounded (q := manyUpTo test item) (fun bound => ?_) fun h =>
    run_manyUpTo_eq hlooks hp (Nat.le_refl _) h
  induction bound with
  | nil => exact ht.bind fun _ => pure []
  | cons u bound ih =>
    refine ht.bind fun b => ?_
    cases b with
    | false => exact pure []
    | true => exact hi.bind fun a => ih.map _

theorem chain {γ : Type} {table : Kind → Option γ} {operand : Parser α}
    {join : γ → Token → α → α → α} (ho : Sighted spare operand) (hp : Progresses operand) :
    Sighted spare (chain table operand join) := by
  refine ho.bind fun lhs => of_bounded (q := fun bound => extendUpTo table operand join bound lhs)
    (fun bound => ?_) fun h => run_extendUpTo_eq hp (Nat.le_refl _) h
  induction bound generalizing lhs with
  | nil => exact pure lhs
  | cons u bound ih => exact accept?_bind (pure lhs) fun op => ho.bind fun rhs => ih _

end Sighted

end BraceLang.Grammar
