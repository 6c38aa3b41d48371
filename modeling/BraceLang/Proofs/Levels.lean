import BraceLang.Grammar.Session
import BraceLang.Proofs.Comparison

/-!
# Levels that are opened and closed

Followed from one step of a parser to the next, the level of nesting goes down by one and up again.
Every parser of the grammar ends on the level it started from, also where it fails, and never goes
below the limit (`Levelled.returns`). Nor is the limit more than a parser needs to come to its end:
if it stops because of the limit, then it was on the last level (`Levelled.fills`).
-/

namespace BraceLang.Grammar

/-- The level of nesting after a step. No level is opened past the limit, and none is closed that
was not opened. -/
def Step.level? (limit level : Nat) : Step → Option Nat
  | enter _ => some level
  | descend => if level < limit then some (level + 1) else none
  | ascend => if 0 < level then some (level - 1) else none

def levelAfter? (limit level : Nat) (steps : List Step) : Option Nat :=
  steps.foldlM (Step.level? limit) level

variable {limit level : Nat}

theorem levelAfter?_cons (step : Step) (steps : List Step) :
    levelAfter? limit level (step :: steps) =
      (step.level? limit level).bind (levelAfter? limit · steps) := rfl

theorem levelAfter?_append (steps steps' : List Step) :
    levelAfter? limit level (steps ++ steps') =
      (levelAfter? limit level steps).bind (levelAfter? limit · steps') :=
  List.foldlM_append

theorem Step.level?_mono {limit' level' : Nat} {step : Step} (h : limit ≤ limit')
    (hs : step.level? limit level = some level') : step.level? limit' level = some level' := by
  cases step with
  | enter rule => exact hs
  | ascend => exact hs
  | descend =>
    rw [level?] at hs ⊢
    split at hs
    · rwa [if_pos (by omega)]
    · cases hs

/-- A higher limit allows the same steps. -/
theorem levelAfter?_mono {limit' level' : Nat} {steps : List Step} (h : limit ≤ limit')
    (hs : levelAfter? limit level steps = some level') :
    levelAfter? limit' level steps = some level' := by
  induction steps generalizing level with
  | nil => exact hs
  | cons step steps ih =>
    rw [levelAfter?_cons, Option.bind_eq_some_iff] at hs ⊢
    obtain ⟨next, hstep, hsteps⟩ := hs
    exact ⟨next, step.level?_mono h hstep, ih hsteps⟩

theorem Step.level?_le {level' : Nat} {step : Step} (h : level ≤ limit)
    (hs : step.level? limit level = some level') : level' ≤ limit := by
  cases step with
  | enter rule => exact Option.some.inj hs ▸ h
  | descend =>
    rw [level?] at hs
    split at hs
    · obtain rfl := Option.some.inj hs
      omega
    · cases hs
  | ascend =>
    rw [level?] at hs
    split at hs
    · obtain rfl := Option.some.inj hs
      omega
    · cases hs

theorem levelAfter?_le {level' : Nat} {steps : List Step} (h : level ≤ limit)
    (hs : levelAfter? limit level steps = some level') : level' ≤ limit := by
  induction steps generalizing level with
  | nil => exact Option.some.inj hs ▸ h
  | cons step steps ih =>
    rw [levelAfter?_cons, Option.bind_eq_some_iff] at hs
    obtain ⟨next, hstep, hsteps⟩ := hs
    exact ih (step.level?_le h hstep) hsteps

/-- Steps that can all be made pass no level beyond the limit. -/
theorem exists_levelAfter?_of_prefix {level' : Nat} {steps before : List Step} (h : level ≤ limit)
    (hs : levelAfter? limit level steps = some level') (hbefore : before <+: steps) :
    ∃ between, between ≤ limit ∧ levelAfter? limit level before = some between := by
  obtain ⟨after, rfl⟩ := hbefore
  rw [levelAfter?_append, Option.bind_eq_some_iff] at hs
  obtain ⟨between, hbetween, -⟩ := hs
  exact ⟨between, levelAfter?_le h hbetween, hbetween⟩

/-- From whatever level a parser starts that may open `room` further ones. -/
structure Levelled {α : Type} (room : Nat) (o : Outcome α) : Prop where
  returns : ∀ level, levelAfter? (level + room) level o.steps = some level
  fills : ∀ {e}, o.result = .error e → e.cause.site = .anywhere → ∀ level {less}, less < room →
    levelAfter? (level + less) level o.steps = none

namespace Levelled

variable {α β : Type} {room : Nat}

/-- What is done without opening a level, and does not fail because of the limit. -/
theorem of_steps {o : Outcome α}
    (hsteps : ∀ limit level, levelAfter? limit level o.steps = some level)
    (h : ∀ e, o.result = .error e → e.cause.site ≠ .anywhere) : Levelled room o where
  returns level := hsteps (level + room) level
  fills he hs := absurd hs (h _ he)

/-- With no room left no level is opened, and the limit is where the parser starts. -/
theorem tooDeep (nest : Nest) (ts : List Token) :
    Levelled 0 (Parser.fail (.tooDeep nest) ts : Outcome α) where
  returns _ := rfl
  fills _ _ _ _ hless := absurd hless (Nat.not_lt_zero _)

theorem bind {p : Parser α} {f : α → Parser β} {ts : List Token} (hp : Levelled room (p ts))
    (hf : ∀ a rest, Levelled room (f a rest)) : Levelled room ((p >>= f) ts) := by
  rcases hrun : p ts with ⟨e | a, rest, steps⟩ <;> rw [hrun] at hp
  · rw [Parser.bind_apply_of_error f hrun]
    exact ⟨hp.returns, fun he => hp.fills (congrArg Except.error (Except.error.inj he))⟩
  · rw [Parser.bind_apply_of_ok f hrun]
    constructor
    · intro level
      rw [levelAfter?_append, hp.returns, Option.bind_some]
      exact (hf a rest).returns level
    · intro e he hs level less hless
      rw [levelAfter?_append, Option.bind_eq_none_iff]
      intro level' hlevel
      -- the first part is back on the level where the second one starts
      have hback := levelAfter?_mono (Nat.add_le_add_left (Nat.le_of_lt hless) level) hlevel
      rw [hp.returns] at hback
      obtain rfl := Option.some.inj hback
      exact (hf a rest).fills he hs level hless

theorem deeper {p : Parser α} {ts : List Token} (h : Levelled room (p ts)) :
    Levelled (room + 1) (p.deeper ts) where
  returns level := by
    have hinside := h.returns (level + 1)
    rw [Nat.add_right_comm] at hinside
    rw [Parser.deeper, List.cons_append, levelAfter?_cons, Step.level?, if_pos (by omega),
      Option.bind_some, levelAfter?_append, ← Nat.add_assoc, hinside]
    rfl
  fills {e} he hs level less hless := by
    rw [Parser.deeper, List.cons_append, levelAfter?_cons, Step.level?]
    cases less with
    | zero => rw [if_neg (by omega), Option.bind_none]
    | succ less =>
      have hinside := h.fills he hs (level + 1) (Nat.lt_of_succ_lt_succ hless)
      rw [Nat.add_right_comm] at hinside
      rw [if_pos (by omega), Option.bind_some, levelAfter?_append, ← Nat.add_assoc, hinside,
        Option.bind_none]

end Levelled

def levelledWithin (room : Nat) : Comparison :=
  fun _ _ o _ => Levelled room o

theorem closed_levelledWithin (room : Nat) : (levelledWithin room).Closed where
  pure a ts := Levelled.of_steps (fun _ _ => rfl) fun e he => by cases he
  failAt token cause h ts := Levelled.of_steps (fun _ _ => rfl) fun e he => by
    cases he
    exact h
  taken a t rest := Levelled.of_steps (fun _ _ => rfl) fun e he => by cases he
  enter rule ts := Levelled.of_steps (fun _ _ => rfl) fun e he => by cases he
  bind hp hf ts := (hp ts).bind fun a => hf a

theorem levelledInner_within (room : Nat) :
    ComparesInner (levelledWithin room) (.within room) (.within room) := by
  induction room with
  | zero => exact ⟨fun ts => .tooDeep _ ts, fun ts => .tooDeep _ ts, fun ts => .tooDeep _ ts,
      fun ts => .tooDeep _ ts⟩
  | succ room ih =>
    have hR := closed_levelledWithin room
    exact ⟨fun ts => (compares_dispatch hR ih ts).deeper,
      fun ts => (compares_assignment hR ih ts).deeper, fun ts => (compares_unary hR ih ts).deeper,
      fun ts => (compares_power hR ih ts).deeper⟩

/-- A parse of a program ends on the level it started from, and stays within its limit. -/
theorem levelled_programParser (limit : Nat) (ts : List Token) :
    Levelled limit (programParser limit ts) :=
  compares_program (closed_levelledWithin limit) (levelledInner_within limit) ts

end BraceLang.Grammar
