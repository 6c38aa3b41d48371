import Mathlib.Logic.Function.Iterate
import Mathlib.Order.Monotone.Basic
import BraceLang.Proofs.Levels
import BraceLang.Proofs.Recognition
import BraceLang.Proofs.Steady

/-!
# Sessions that go on after an error

A call of a session reads on where the one before stopped, with all levels of nesting closed, and
answers like a session that is given no other tokens than those left. What is left is a tail of what
was left before. So a call that takes nothing is repeated forever, and there are at most as many
others as there are tokens.
-/

namespace BraceLang.Grammar

theorem endLocation_append (ts : List Token) {us : List Token} (h : us ≠ []) :
    endLocation (ts ++ us) = endLocation us := by
  obtain ⟨last, hlast⟩ : ∃ t, us.getLast? = some t := ⟨_, List.getLast?_eq_some_getLast h⟩
  rw [endLocation, endLocation, List.getLast?_append, hlast]
  rfl

/-- An error past the end of some tokens stands where it stands past the end of a tail of them. -/
theorem answer_of_suffix {α : Type} {ts us : List Token} (h : us <:+ ts) (hne : us ≠ [])
    (o : Outcome α) : o.answer ts = o.answer us := by
  obtain ⟨before, rfl⟩ := h
  have hwithin : Failure.within (before ++ us) = Failure.within us := by
    funext e
    rw [Failure.within, Failure.within, endLocation_append before hne]
  rw [Outcome.answer, Outcome.answer, hwithin]

namespace Session

def after (s : Session) (calls : Nat) : Session :=
  next^[calls] s

def steps (s : Session) (calls : Nat) : List Step :=
  (List.range calls).flatMap fun k => (s.after k).outcome.steps

@[simp] theorem after_zero (s : Session) : s.after 0 = s := rfl

theorem after_succ (s : Session) (calls : Nat) : s.after (calls + 1) = (s.after calls).next :=
  Function.iterate_succ_apply' next calls s

theorem after_succ' (s : Session) (calls : Nat) : s.after (calls + 1) = s.next.after calls := rfl

theorem answers_eq_map (calls : Nat) (s : Session) :
    answers calls s = (List.range calls).map fun k => (s.after k).answer := by
  induction calls generalizing s with
  | zero => rfl
  | succ calls ih =>
    rw [answers, ih, List.range_succ_eq_map, List.map_cons, List.map_map]
    rfl

theorem steps_succ (s : Session) (calls : Nat) :
    s.steps (calls + 1) = s.steps calls ++ (s.after calls).outcome.steps := by
  rw [steps, steps, List.range_succ, List.flatMap_append, List.flatMap_singleton]

/-- After each call all levels of nesting are closed. -/
theorem levelAfter?_steps (s : Session) (calls : Nat) :
    levelAfter? maxNesting 0 (s.steps calls) = some 0 := by
  induction calls with
  | zero => rfl
  | succ calls ih =>
    have hcall := (levelled_programParser maxNesting (s.after calls).rest).returns 0
    rw [Nat.zero_add] at hcall
    rw [steps_succ, levelAfter?_append, ih, Option.bind_some, outcome, hcall]

theorem next_rest_suffix (s : Session) : s.next.rest <:+ s.rest :=
  (Parser.program_sound (Parser.inner_within maxNesting)).trims.suffix s.rest

structure Within (ts : List Token) (s : Session) : Prop where
  tokens : s.tokens = ts
  rest : s.rest <:+ ts

variable {ts : List Token} {s : Session}

theorem within_start (ts : List Token) : (start ts).Within ts :=
  ⟨rfl, List.suffix_rfl⟩

theorem Within.next (h : s.Within ts) : s.next.Within ts :=
  ⟨h.tokens, s.next_rest_suffix.trans h.rest⟩

theorem within_after (ts : List Token) (calls : Nat) : ((start ts).after calls).Within ts := by
  induction calls with
  | zero => exact within_start ts
  | succ calls ih =>
    rw [after_succ]
    exact ih.next

theorem Within.rest_eq_drop (h : s.Within ts) : s.rest = ts.drop s.position := by
  rw [position, h.tokens]
  exact List.suffix_iff_eq_drop.mp h.rest

theorem Within.position_le (h : s.Within ts) : s.position ≤ ts.length := by
  rw [position, h.tokens]
  exact Nat.sub_le _ _

theorem Within.position_le_next (h : s.Within ts) : s.position ≤ s.next.position := by
  rw [position, position, h.tokens, h.next.tokens]
  exact Nat.sub_le_sub_left s.next_rest_suffix.length_le _

/-- The answer does not depend on the tokens that are no longer left. -/
theorem Within.answer_eq (h : s.Within ts) : s.answer = (start s.rest).answer := by
  rw [answer, h.tokens]
  cases hrest : s.rest with
  | nil =>
    rw [outcome, hrest]
    rfl
  | cons t rest =>
    rw [outcome, hrest, answer_of_suffix (hrest ▸ h.rest) (List.cons_ne_nil t rest)]
    rfl

/-- A program is read to the end of the tokens. -/
theorem Within.next_position_of_ok {p : Program} (h : s.Within ts) (hp : s.answer = .ok p) :
    s.next.position = ts.length := by
  rw [h.answer_eq] at hp
  have hrest : s.next.rest = [] := run_program_ok (run_of_answer_ok hp)
  rw [position, h.next.tokens, hrest, List.length_nil, Nat.sub_zero]

theorem next_eq_self_or_length_lt (s : Session) :
    s.next = s ∨ s.next.rest.length < s.rest.length := by
  have hsuffix := s.next_rest_suffix
  refine hsuffix.length_le.eq_or_lt.imp_left fun hlength => ?_
  have hrest : s.next.rest = s.rest := hsuffix.eq_of_length hlength
  exact congrArg (Session.mk s.tokens) hrest

theorem after_of_next_eq_self (h : s.next = s) (calls : Nat) : s.after calls = s :=
  Function.iterate_fixed h calls

/-- After as many calls as tokens are left, no call changes anything. -/
theorem after_eq_of_length_le {calls more : Nat} (h : s.rest.length ≤ calls) (hle : calls ≤ more) :
    s.after more = s.after calls := by
  induction calls generalizing s more with
  | zero =>
    have hnext : s.next = s := s.next_eq_self_or_length_lt.resolve_right (by omega)
    rw [after_of_next_eq_self hnext, after_zero]
  | succ calls ih =>
    rcases s.next_eq_self_or_length_lt with hnext | hlt
    · rw [after_of_next_eq_self hnext, after_of_next_eq_self hnext]
    · cases more with
      | zero => omega
      | succ more =>
        rw [after_succ', after_succ']
        exact ih (by omega) (by omega)

end Session

open Session

/-- A session that goes on after an error is on level zero and answers like a fresh one on what is
left. It never goes back, it is at the end after a success, and after as many calls as there are
tokens it repeats itself. -/
theorem session_restarts (ts : List Token) :
    (∀ calls, ((start ts).after calls).position ≤ ts.length ∧
      ((start ts).after calls).rest = ts.drop ((start ts).after calls).position ∧
      levelAfter? maxNesting 0 ((start ts).steps calls) = some 0 ∧
      ((start ts).after calls).answer =
        (start (ts.drop ((start ts).after calls).position)).answer) ∧
    (∀ calls, answers calls (start ts) =
      (List.range calls).map fun k => ((start ts).after k).answer) ∧
    Monotone (fun calls => ((start ts).after calls).position) ∧
    (∀ calls p, ((start ts).after calls).answer = .ok p →
      ((start ts).after (calls + 1)).position = ts.length) ∧
    ∀ calls, ts.length ≤ calls →
      ((start ts).after calls).answer = ((start ts).after ts.length).answer := by
  refine ⟨fun calls => ?_, fun calls => answers_eq_map calls _, ?_, fun calls p hp => ?_,
    fun calls hle => ?_⟩
  · have h := within_after ts calls
    exact ⟨h.position_le, h.rest_eq_drop, levelAfter?_steps _ calls, h.rest_eq_drop ▸ h.answer_eq⟩
  · refine monotone_nat_of_le_succ fun calls => ?_
    rw [after_succ]
    exact (within_after ts calls).position_le_next
  · rw [after_succ]
    exact (within_after ts calls).next_position_of_ok hp
  · rw [after_eq_of_length_le (Nat.le_refl ts.length) hle]

/-- A function whose result is an integer out of range, with a function behind it. -/
def outOfRange : List Token :=
  [.identifier, .identifier, .leftParen, .rightParen, .leftBrace, .reservedReturn].map
      Parser.someToken ++
    [⟨.intLiteral, .origin, .origin, "9223372036854775808"⟩] ++
  [.identifier, .identifier, .leftParen, .rightParen, .leftBrace, .rightBrace].map Parser.someToken

/-- The integer is refused after it was taken, two levels down. The second call starts behind it and
reads the other function, and no later call has anything to read. -/
theorem session_restarts_outOfRange :
    ((start outOfRange).after 1).position = 7 ∧
    levelAfter? maxNesting 0 ((start outOfRange).steps 1) = some 0 ∧
    ((start outOfRange).after 1).answer = (start (outOfRange.drop 7)).answer ∧
    ((start outOfRange).after 1).answer =
      .ok ⟨[⟨Parser.someToken .identifier, Parser.someToken .identifier, [], []⟩]⟩ ∧
    ((start outOfRange).after 2).position = outOfRange.length ∧
    ((start outOfRange).after 20).answer =
      ((start outOfRange).after outOfRange.length).answer := by
  obtain ⟨hcalls, -, -, hok, hsettles⟩ := session_restarts outOfRange
  have hposition : ((start outOfRange).after 1).position = 7 := by decide +kernel
  obtain ⟨-, -, hlevel, hfresh⟩ := hcalls 1
  rw [hposition] at hfresh
  have hread : ((start outOfRange).after 1).answer =
      .ok ⟨[⟨Parser.someToken .identifier, Parser.someToken .identifier, [], []⟩]⟩ := rfl
  exact ⟨hposition, hlevel, hfresh, hread, hok 1 _ hread, hsettles 20 (by decide)⟩

end BraceLang.Grammar
