import BraceLang.Proofs.Completeness

/-!
# What a parser has looked at

A parser looks at most two tokens ahead of what it has taken. So a result with a further token in
hand does not depend on the tokens behind that one (`Steady.exchange`), and a parser that stops at
the limit on nesting where the tokens end also stops there if more of them follow (`Steady.deep`).

Both are kept by a sequence. The first part may have stopped only because the tokens were used up;
then the second part is at their end too, and it is enough that it does not stop at the limit there
(`Quiet`). A part that has to take a last token of its own leaves no such doubt (`Firm`).
-/

namespace BraceLang.Grammar

open BraceLang.Grammar.Parser

variable {α β : Type}

/-- What is left is a tail of what was given, and a literal is only refused after it was taken. -/
def Trims (p : Parser α) : Prop :=
  ∀ ts, ∃ c, ts = c ++ (run p ts).2 ∧
    ∀ e, (run p ts).1 = .error e → e.cause.site = .taken →
      ∃ b t, c = b ++ [t] ∧ t.kind ≠ .identifier

theorem Sound.trims {room : Nat} {p : Parser α} {D : Language α} (h : Sound room p D) :
    Trims p := by
  intro ts
  have hts := (h ts).explains
  rcases hrun : run p ts with ⟨e | a, rest⟩ <;> rw [hrun] at hts
  · obtain ⟨c, rfl, hc⟩ := hts
    refine ⟨c, rfl, ?_⟩
    rintro _ ⟨⟩ he
    rcases hc with hc | ⟨b, hb, -⟩
    · simp [he] at hc
    cases hb with
    | nowhere hs => simp [he] at hs
    | current hs => simp [he] at hs
    | @taken _ _ t _ _ hk =>
      refine ⟨b, t, rfl, fun hid => ?_⟩
      simp [hid] at hk
  · obtain ⟨d, c, -, rfl, -⟩ := hts
    exact ⟨c, rfl, fun e he => by cases he⟩

namespace Trims

theorem suffix {p : Parser α} (h : Trims p) (ts : List Token) : (run p ts).2 <:+ ts := by
  obtain ⟨c, hc, -⟩ := h ts
  exact ⟨c, hc.symm⟩

theorem pure (a : α) : Trims (Pure.pure a : Parser α) :=
  fun _ => ⟨[], rfl, fun _ he => by cases he⟩

theorem fail {cause : Cause} (h : cause.site ≠ .taken) : Trims (Parser.fail cause : Parser α) := by
  refine fun ts => ⟨[], rfl, ?_⟩
  rintro _ ⟨⟩ hs
  exact absurd hs h

theorem bind {p : Parser α} {f : α → Parser β} (hp : Trims p) (hf : ∀ a, Trims (f a)) :
    Trims (p >>= f) := by
  intro ts
  obtain ⟨c, hc, htaken⟩ := hp ts
  rcases hrun : run p ts with ⟨e | a, mid⟩ <;> rw [hrun] at hc htaken
  · rw [run_bind_of_error f hrun]
    refine ⟨c, hc, ?_⟩
    rintro _ ⟨⟩ hs
    exact htaken e rfl hs
  · rw [run_bind_of_ok f hrun]
    obtain ⟨c', hc', htaken'⟩ := hf a mid
    refine ⟨c ++ c', by rw [List.append_assoc, ← hc', ← hc], fun e he hs => ?_⟩
    obtain ⟨b, t, rfl, ht⟩ := htaken' e he hs
    exact ⟨c ++ b, t, (List.append_assoc ..).symm, ht⟩

theorem take (expected : Kind) {cause : Kind → Cause} (hc : ∀ k, (cause k).site = .current) :
    Trims (Parser.take expected cause) :=
  (Sound.take hc : Sound 0 (Parser.take expected cause) _).trims

theorem current : Trims Parser.current := by
  intro ts
  cases ts with
  | nil => exact ⟨[], rfl, by rintro _ ⟨⟩ ⟨⟩⟩
  | cons t rest => exact ⟨[], rfl, fun e he => by cases he⟩

theorem accept? {γ : Type} (table : Kind → Option γ) : Trims (Parser.accept? table) := by
  intro ts
  cases ts with
  | nil => exact ⟨[], rfl, fun e he => by cases he⟩
  | cons t rest =>
    cases h : table t.kind with
    | none => exact ⟨[], by simp [run, Parser.accept?, h], fun e he => by
        simp [run, Parser.accept?, h] at he⟩
    | some op => exact ⟨[t], by simp [run, Parser.accept?, h], fun e he => by
        simp [run, Parser.accept?, h] at he⟩

end Trims

/-- At the end of the tokens the parser does not stop at the limit on nesting. -/
def Quiet (p : Parser α) : Prop :=
  ¬ StopsTooDeep (run p [])

theorem not_stopsTooDeep_ok {a : α} {rest : List Token} :
    ¬ StopsTooDeep ((.ok a, rest) : Except Failure α × List Token) := by
  rintro ⟨nest, token, rest', ⟨⟩⟩

theorem not_stopsTooDeep_error {e : Failure} {rest : List Token} (h : e.cause.site ≠ .anywhere) :
    ¬ StopsTooDeep ((.error e, rest) : Except Failure α × List Token) := by
  rintro ⟨nest, token, rest', ⟨⟩⟩
  exact h rfl

namespace Quiet

theorem pure (a : α) : Quiet (Pure.pure a : Parser α) :=
  not_stopsTooDeep_ok

theorem take_bind {expected : Kind} {cause : Kind → Cause} {f : Token → Parser β} :
    Quiet (Parser.take expected cause >>= f) := by
  rw [Quiet, run_bind_of_error f (run_take_nil expected cause)]
  exact not_stopsTooDeep_error (by decide)

theorem current?_bind {f : Option Kind → Parser β} (h : Quiet (f none)) :
    Quiet (current? >>= f) := by
  rwa [Quiet, run_current?_bind]

theorem current_bind {f : Kind → Parser β} : Quiet (current >>= f) := by
  rw [Quiet, run_current_nil_bind]
  exact not_stopsTooDeep_error (by decide)

theorem accept?_bind {γ : Type} {table : Kind → Option γ} {f : Option (γ × Token) → Parser β}
    (h : Quiet (f none)) : Quiet (accept? table >>= f) := by
  rwa [Quiet, run_accept?_nil_bind]

theorem bind_pure {p : Parser α} (f : α → β) (h : Quiet p) :
    Quiet (p >>= fun a => Pure.pure (f a)) := by
  unfold Quiet at h ⊢
  rw [run_bind]
  rcases hrun : run p [] with ⟨e | a, rest⟩
  · rintro ⟨nest, token, rest', he⟩
    simp only [Prod.mk.injEq, Except.error.injEq] at he
    exact h ⟨nest, token, rest, by rw [hrun, he.1]⟩
  · exact not_stopsTooDeep_ok

theorem map {p : Parser α} (f : α → β) (h : Quiet p) : Quiet (f <$> p) := by
  rw [Quiet, run_map]
  exact h.bind_pure f

end Quiet

/-- A result with tokens `r` in hand that nothing behind them had a part in. -/
def Settled : Except Failure α → List Token → Prop
  | .ok _, r => r ≠ []
  | .error e, r => e.cause.site = .taken ∨ (e.cause.site = .current ∧ r ≠ [])

/-- The parser does on the tokens `u` what it does on them in front of any others. -/
structure SteadyAt (p : Parser α) (u : List Token) : Prop where
  exchange : ∀ {x r res}, run p (u ++ x) = (res, r ++ x) → Settled res r →
    ∀ x', run p (u ++ x') = (res, r ++ x')
  deep : StopsTooDeep (run p u) → ∀ x, StopsTooDeep (run p (u ++ x))

structure Steady (p : Parser α) : Prop where
  trims : Trims p
  at_tokens : ∀ u, SteadyAt p u

theorem Trims.not_settled {p : Parser α} (h : Trims p) {x r : List Token}
    {res : Except Failure α} (hrun : run p x = (res, r ++ x)) : ¬ Settled res r := by
  obtain ⟨c, hc, htaken⟩ := h x
  rw [hrun] at hc htaken
  have hlen := congrArg List.length hc
  simp only [List.length_append] at hlen
  obtain rfl : r = [] := List.length_eq_zero_iff.mp (by omega)
  obtain rfl : c = [] := List.length_eq_zero_iff.mp (by omega)
  cases res with
  | ok a => exact fun hs => hs rfl
  | error e =>
    rintro (hs | ⟨-, hs⟩)
    · obtain ⟨b, t, hb, -⟩ := htaken e rfl hs
      simp at hb
    · exact hs rfl

theorem SteadyAt.congr {p : Parser α} {q : Parser α} {u v : List Token} (hq : SteadyAt q v)
    (h : ∀ x, run p (u ++ x) = run q (v ++ x)) : SteadyAt p u where
  exchange hrun hs x' := by
    rw [h] at hrun ⊢
    exact hq.exchange hrun hs x'
  deep hd x := by
    have h0 := h []
    simp only [List.append_nil] at h0
    rw [h0] at hd
    rw [h]
    exact hq.deep hd x

theorem SteadyAt.nil {p : Parser α} (ht : Trims p) (hq : Quiet p) : SteadyAt p [] where
  exchange hrun hs := absurd hs (ht.not_settled hrun)
  deep hd := absurd hd hq

namespace Steady

theorem of_cons {p : Parser α} (ht : Trims p) (hq : Quiet p) (h : ∀ t u, SteadyAt p (t :: u)) :
    Steady p :=
  ⟨ht, fun u => match u with
    | [] => .nil ht hq
    | t :: u => h t u⟩

theorem congr {p q : Parser α} (hq : Steady q) (h : ∀ ts, run p ts = run q ts) : Steady p where
  trims ts := by
    rw [h]
    exact hq.trims ts
  at_tokens u := (hq.at_tokens u).congr fun _ => h _

theorem pure (a : α) : Steady (Pure.pure a : Parser α) where
  trims := .pure a
  at_tokens u :=
    { exchange := fun {x r res} hrun _ x' => by
        rw [run_pure] at hrun
        obtain ⟨rfl, hr⟩ := Prod.mk.inj hrun
        rw [← List.append_cancel_right hr, run_pure]
      deep := fun hd => absurd hd not_stopsTooDeep_ok }

/-- A failure at the current token. -/
theorem fail {cause : Cause} (h : cause.site = .current) :
    Steady (Parser.fail cause : Parser α) := by
  have hn : cause.site ≠ .anywhere := by simp [h]
  refine of_cons (.fail (by simp [h])) (not_stopsTooDeep_error hn) fun t u => ⟨?_, ?_⟩
  · intro x r res hrun _ x'
    obtain ⟨rfl, hr⟩ := Prod.mk.inj hrun
    rw [← List.append_cancel_right hr]
    rfl
  · exact fun hd => absurd hd (not_stopsTooDeep_error hn)

theorem tooDeep (nest : Nest) : Steady (Parser.fail (.tooDeep nest) : Parser α) where
  trims := .fail (by simp [Cause.site])
  at_tokens u :=
    { exchange := fun {x r res} hrun hs => by
        rw [run_fail] at hrun
        obtain ⟨rfl, -⟩ := Prod.mk.inj hrun
        simp [Settled, Cause.site] at hs
      deep := fun _ _ => ⟨nest, _, _, rfl⟩ }

/-- Where the first part used up the tokens, so would the second. -/
theorem bind {p : Parser α} {f : α → Parser β} (hp : Steady p) (hf : ∀ a, Steady (f a))
    (hq : ∀ a, Quiet (f a)) : Steady (p >>= f) where
  trims := hp.trims.bind fun a => (hf a).trims
  at_tokens u := by
    constructor
    · intro x r res hrun hs x'
      rcases hmid : run p (u ++ x) with ⟨e | a, mid⟩
      · rw [run_bind_of_error f hmid] at hrun
        obtain ⟨rfl, rfl⟩ := Prod.mk.inj hrun
        exact run_bind_of_error f ((hp.at_tokens u).exchange hmid hs x')
      · rw [run_bind_of_ok f hmid] at hrun
        obtain ⟨c, hc, -⟩ := (hf a).trims mid
        rw [hrun, ← List.append_assoc] at hc
        subst hc
        have hne : c ++ r ≠ [] := by
          intro hnil
          obtain ⟨rfl, rfl⟩ := List.append_eq_nil_iff.mp hnil
          exact (hf a).trims.not_settled hrun hs
        rw [run_bind_of_ok f ((hp.at_tokens u).exchange hmid hne x')]
        exact ((hf a).at_tokens (c ++ r)).exchange hrun hs x'
    · intro hd x
      rcases hmid : run p u with ⟨e | a, mid⟩
      · obtain ⟨nest, token, rest, hd⟩ := hd
        rw [run_bind_of_error f hmid] at hd
        obtain ⟨⟨⟩, rfl⟩ := Prod.mk.inj hd
        obtain ⟨nest', token', rest', hx⟩ := (hp.at_tokens u).deep ⟨nest, token, mid, hmid⟩ x
        exact ⟨nest', token', rest', run_bind_of_error f hx⟩
      · rw [run_bind_of_ok f hmid] at hd
        have hne : mid ≠ [] := by
          rintro rfl
          exact hq a hd
        have hmid' : run p (u ++ []) = (.ok a, mid ++ []) := by simpa using hmid
        rw [run_bind_of_ok f ((hp.at_tokens u).exchange hmid' hne x)]
        exact ((hf a).at_tokens mid).deep hd x

theorem map {p : Parser α} (f : α → β) (hp : Steady p) : Steady (f <$> p) :=
  (hp.bind (fun a => pure (f a)) fun a => .pure (f a)).congr (run_map f p)

theorem enter_bind {rule : Production} {f : Unit → Parser β} (h : Steady (f ())) :
    Steady (enter rule >>= f) :=
  h.congr (run_enter_bind rule f)

theorem deeper {p : Parser α} (h : Steady p) : Steady p.deeper :=
  h.congr (run_deeper p)

theorem take_bind {expected : Kind} {cause : Kind → Cause} {f : Token → Parser β}
    (hc : ∀ k, (cause k).site = .current) (hf : ∀ t, Steady (f t)) :
    Steady (Parser.take expected cause >>= f) := by
  refine of_cons (.bind (.take _ hc) fun t => (hf t).trims) .take_bind fun t u => ?_
  by_cases ht : t.kind = expected
  · exact ((hf t).at_tokens u).congr fun _ => run_take_bind f ht
  · exact ((fail (hc t.kind)).at_tokens (t :: u)).congr fun x =>
      run_bind_of_error f (run_take_of_ne (u ++ x) cause ht)

theorem expect (expected : Kind) : Steady (Parser.expect expected) :=
  (take_bind (fun _ => rfl) pure).congr fun ts => (run_bind_pure _ ts).symm

theorem expect_bind {expected : Kind} {f : Token → Parser β} (hf : ∀ t, Steady (f t)) :
    Steady (Parser.expect expected >>= f) :=
  take_bind (fun _ => rfl) hf

theorem require_bind {expected : Kind} {place : Place} {f : Token → Parser β}
    (hf : ∀ t, Steady (f t)) : Steady (require expected place >>= f) :=
  take_bind (fun _ => rfl) hf

theorem current_bind {f : Kind → Parser β} (hf : ∀ k, Steady (f k)) : Steady (current >>= f) :=
  of_cons (.bind .current fun k => (hf k).trims) .current_bind fun t u =>
    ((hf t.kind).at_tokens (t :: u)).congr fun x => run_current_cons_bind f t (u ++ x)

theorem current?_bind {f : Option Kind → Parser β} (hf : ∀ k, Steady (f k))
    (hq : Quiet (f none)) : Steady (current? >>= f) := by
  have ht : Trims current? := fun ts => ⟨[], rfl, fun e he => by cases he⟩
  refine of_cons (ht.bind fun k => (hf k).trims) (.current?_bind hq) fun t u => ?_
  exact ((hf (some t.kind)).at_tokens (t :: u)).congr fun x => run_current?_bind f (t :: (u ++ x))

theorem accept?_bind {γ : Type} {table : Kind → Option γ} {f : Option (γ × Token) → Parser β}
    (hn : Steady (f none)) (hq : Quiet (f none)) (hs : ∀ op, Steady (f (some op))) :
    Steady (accept? table >>= f) := by
  refine of_cons (.bind (.accept? table) fun op => ?_) (.accept?_bind hq) fun t u => ?_
  · cases op with
    | none => exact hn.trims
    | some op => exact (hs op).trims
  · cases ht : table t.kind with
    | none => exact (hn.at_tokens (t :: u)).congr fun _ => run_accept?_bind_of_none f ht
    | some op => exact ((hs (op, t)).at_tokens u).congr fun _ => run_accept?_bind_of_some f ht

/-- A literal is read or refused by its own text. -/
theorem literal_bind {expected : Kind} {f : Token → Parser β}
    (ht : Trims (Parser.expect expected >>= f)) (hf : ∀ t, (∃ b, f t = Pure.pure b) ∨
      ∃ cause, cause.site = .taken ∧ f t = failAt (some t) cause) :
    Steady (Parser.expect expected >>= f) := by
  refine of_cons ht .take_bind fun t u => ?_
  by_cases hk : t.kind = expected
  · rcases hf t with ⟨b, hb⟩ | ⟨cause, hc, hb⟩
    · refine ((pure b).at_tokens u).congr fun x => ?_
      rw [List.cons_append, run_expect_bind f hk, hb]
    · have hrun : ∀ x, run (Parser.expect expected >>= f) (t :: u ++ x) =
          (.error ⟨cause, some t⟩, u ++ x) := fun x => by
        rw [List.cons_append, run_expect_bind f hk, hb, run_failAt]
      constructor
      · intro x r res h _ x'
        rw [hrun] at h ⊢
        obtain ⟨rfl, hr⟩ := Prod.mk.inj h
        rw [List.append_cancel_right hr]
      · intro hd
        have h0 := hrun []
        simp only [List.append_nil] at h0
        rw [h0] at hd
        exact absurd hd (not_stopsTooDeep_error (by simp [hc]))
  · have hfail : Steady (Parser.fail (.mismatch expected t.kind) : Parser β) := fail rfl
    exact (hfail.at_tokens (t :: u)).congr fun x =>
      run_bind_of_error f (run_take_of_ne (u ++ x) _ hk)

end Steady

/-- A name at the front is used up, unless the tokens end or the nesting is too deep. -/
def Grips (p : Parser α) : Prop :=
  ∀ t x, t.kind = .identifier → (run p (t :: x)).2 <:+ x ∨
    ∃ e, (run p (t :: x)).1 = .error e ∧ (e.cause.site = .nowhere ∨ e.cause.site = .anywhere)

namespace Grips

theorem congr {p q : Parser α} (hq : Grips q) (h : ∀ ts, run p ts = run q ts) : Grips p := by
  intro t x ht
  rw [h]
  exact hq t x ht

theorem bind {p : Parser α} {f : α → Parser β} (hp : Grips p) (hf : ∀ a, Trims (f a)) :
    Grips (p >>= f) := by
  intro t x ht
  have hgrip := hp t x ht
  rcases hrun : run p (t :: x) with ⟨e | a, mid⟩ <;> rw [hrun] at hgrip
  · rw [run_bind_of_error f hrun]
    refine hgrip.imp_right ?_
    rintro ⟨_, ⟨⟩, he⟩
    exact ⟨e, rfl, he⟩
  · rw [run_bind_of_ok f hrun]
    rcases hgrip with hmid | ⟨e, ⟨⟩, -⟩
    exact .inl (((hf a).suffix mid).trans hmid)

theorem enter_bind {rule : Production} {f : Unit → Parser β} (h : Grips (f ())) :
    Grips (enter rule >>= f) :=
  h.congr (run_enter_bind rule f)

theorem deeper {p : Parser α} (h : Grips p) : Grips p.deeper :=
  h.congr (run_deeper p)

theorem tooDeep (nest : Nest) : Grips (Parser.fail (.tooDeep nest) : Parser α) :=
  fun _ _ _ => .inr ⟨_, rfl, .inr rfl⟩

theorem expect_bind {f : Token → Parser β} (hf : ∀ t, Trims (f t)) :
    Grips (expect .identifier >>= f) := by
  intro t x ht
  rw [run_expect_bind f ht]
  exact .inl ((hf t).suffix x)

theorem current_bind {f : Kind → Parser β} (h : Grips (f .identifier)) :
    Grips (current >>= f) := by
  intro t x ht
  rw [run_current_cons_bind, ht]
  exact h t x ht

theorem accept?_bind {γ : Type} {table : Kind → Option γ} {f : Option (γ × Token) → Parser β}
    (htable : table .identifier = none) (h : Grips (f none)) : Grips (accept? table >>= f) := by
  intro t x ht
  rw [run_accept?_bind_of_none f (by rwa [ht])]
  exact h t x ht

/-- No result on a lone name is settled: it depends on what stands behind the name. -/
theorem steadyAt {p : Parser α} (hp : Grips p) (htrims : Trims p) {t : Token}
    (ht : t.kind = .identifier) (hd : ¬ StopsTooDeep (run p [t])) : SteadyAt p [t] where
  deep h := absurd h hd
  exchange {x r res} hrun hs := by
    rw [List.singleton_append] at hrun
    obtain ⟨c, hc, htaken⟩ := htrims (t :: x)
    rcases hp t x ht with hx | ⟨e, he, hsite⟩
    · rw [hrun] at hx hc htaken
      obtain rfl : r = [] := by
        have hle := hx.length_le
        simp only [List.length_append] at hle
        exact List.length_eq_zero_iff.mp (by omega)
      cases res with
      | ok a => exact absurd rfl hs
      | error e =>
        rcases hs with hs | ⟨-, hs⟩
        · obtain ⟨b, t', rfl, ht'⟩ := htaken e rfl hs
          have hlen := congrArg List.length hc
          simp only [List.length_append, List.length_cons, List.length_nil] at hlen
          obtain rfl : b = [] := List.length_eq_zero_iff.mp (by omega)
          obtain ⟨rfl, -⟩ := List.cons.inj hc
          exact absurd ht ht'
        · exact absurd rfl hs
    · rw [hrun] at he
      subst he
      rcases hs with hs | ⟨hs, -⟩ <;> rcases hsite with h | h <;> simp [hs] at h

end Grips

/-- What is done on a name is chosen by the token behind the name. -/
theorem Steady.of_name {p : Parser α} (ht : Trims p) (hq : Quiet p) (hp : Grips p)
    (hone : ∀ t, t.kind = .identifier → ¬ StopsTooDeep (run p [t]))
    (htwo : ∀ t u, t.kind = .identifier →
      ∃ q, Steady q ∧ ∀ x, run p (t :: u :: x) = run q (t :: u :: x))
    (hne : ∀ t, t.kind ≠ .identifier → ∃ q, Steady q ∧ ∀ x, run p (t :: x) = run q (t :: x)) :
    Steady p := by
  refine .of_cons ht hq fun t us => ?_
  by_cases hk : t.kind = .identifier
  · rcases us with _ | ⟨u, us⟩
    · exact hp.steadyAt ht hk (hone t hk)
    · obtain ⟨q, hsteady, h⟩ := htwo t u hk
      exact (hsteady.at_tokens (t :: u :: us)).congr fun x => h (us ++ x)
  · obtain ⟨q, hsteady, h⟩ := hne t hk
    exact (hsteady.at_tokens (t :: us)).congr fun x => h (us ++ x)

def Firm (p : Parser α) : Prop :=
  ∀ ⦃γ : Type⦄ (f : α → Parser γ), (∀ a, Steady (f a)) → Steady (p >>= f)

namespace Firm

theorem pure (a : α) : Firm (Pure.pure a : Parser α) :=
  fun _ f hf => (hf a).congr fun ts => run_bind_of_ok f (run_pure a ts)

theorem enter_bind {rule : Production} {f : Unit → Parser β} (h : Firm (f ())) :
    Firm (enter rule >>= f) := by
  intro γ g hg
  refine (h g hg).congr fun ts => ?_
  rw [run_bind_assoc, run_enter_bind]

theorem take_bind {expected : Kind} {cause : Kind → Cause} {f : Token → Parser β}
    (hc : ∀ k, (cause k).site = .current) (hf : ∀ t, Firm (f t)) :
    Firm (take expected cause >>= f) := fun _ g hg =>
  (Steady.take_bind hc fun t => hf t g hg).congr (run_bind_assoc _ f g)

theorem expect_bind {expected : Kind} {f : Token → Parser β} (hf : ∀ t, Firm (f t)) :
    Firm (expect expected >>= f) :=
  take_bind (fun _ => rfl) hf

theorem require_bind {expected : Kind} {place : Place} {f : Token → Parser β}
    (hf : ∀ t, Firm (f t)) : Firm (require expected place >>= f) :=
  take_bind (fun _ => rfl) hf

/-- A part that may end with the tokens is followed by a token that has to be there. -/
theorem bind_require {p : Parser α} {expected : Kind} {place : α → Place} {f : α → Token → Parser β}
    (hp : Steady p) (hf : ∀ a t, Firm (f a t)) :
    Firm (p >>= fun a => require expected (place a) >>= f a) := fun _ g hg =>
  (hp.bind (fun a => (require_bind (hf a)) g hg) fun a => by
    rw [Quiet, run_bind_assoc]
    exact Quiet.take_bind).congr (run_bind_assoc _ _ g)

end Firm

end BraceLang.Grammar
