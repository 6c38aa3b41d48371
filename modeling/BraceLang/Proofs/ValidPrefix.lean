import BraceLang.Proofs.Lookahead
import BraceLang.Proofs.Recognition

/-!
# Errors stand at the first token that cannot be used

A list of tokens is viable if it begins a program. What the parser has taken when it fails is
viable, because it derives a beginning of a program (soundness). With the token that it fails at it
is not: the parser has seen no further than that token, so it fails there whatever stands behind,
while it reads every program or stops at the limit on nesting (completeness).
-/

namespace BraceLang.Grammar

open BraceLang.Grammar.Parser

def IsProgram (ts : List Token) : Prop :=
  ∃ fs d, Derives (.functions fs) d ts

/-- The tokens begin a program. -/
def Viable (ts : List Token) : Prop :=
  ∃ z, IsProgram (ts ++ z)

theorem Viable.of_append {ts us : List Token} (h : Viable (ts ++ us)) : Viable ts := by
  obtain ⟨z, h⟩ := h
  exact ⟨us ++ z, by rwa [← List.append_assoc]⟩

theorem IsProgram.viable {ts : List Token} (h : IsProgram ts) : Viable ts :=
  ⟨[], by rwa [List.append_nil]⟩

theorem viable_of_begins {ts : List Token}
    (h : (Phrase.language fun p : Program => .functions p.functions).Begins ts) : Viable ts := by
  obtain ⟨d, z, _, p, h⟩ := h
  exact ⟨z, p.functions, d, h⟩

/-- On a program the parser only ever fails at the limit on nesting. -/
theorem IsProgram.not_run_error {ts rest : List Token} {room : Nat} {e : Failure}
    (h : IsProgram ts) (hrun : run (Parser.program (.within room)) ts = (.error e, rest)) :
    e.cause.site = .anywhere := by
  obtain ⟨fs, d, h⟩ := h
  have hp : Derives (.functions (Program.mk fs).functions) d ts := h
  have hmeets := hp.run_program room
  rw [hrun, Meets] at hmeets
  split at hmeets
  · cases hmeets
  · obtain ⟨nest, token, rest', hmeets⟩ := hmeets
    obtain ⟨⟨⟩, -⟩ := Prod.mk.inj hmeets
    rfl

/-- A failure at a token that is seen leaves no way to go on from this token. -/
theorem not_viable_of_settled {room : Nat} {u x r : List Token} {e : Failure}
    (hrun : run (Parser.program (.within room)) (u ++ x) = (.error e, r ++ x))
    (hs : Settled (.error e : Except Failure Program) r) : ¬ Viable u := by
  rintro ⟨z, hz⟩
  have hsteady := (steady_program (steadyInner_within room)).at_tokens u
  have hsite := hz.not_run_error (hsteady.exchange hrun hs z)
  rcases hs with h | ⟨h, -⟩ <;> simp [hsite] at h

/-- How far behind the position of the parser the token of an error stands. A literal is taken
before it is refused. -/
def Cause.back : Cause → Nat
  | .integerRange _ | .malformedFloat _ => 1
  | _ => 0

theorem Cause.back_of_taken {cause : Cause} (h : cause.site = .taken) : cause.back = 1 := by
  cases cause <;> first | rfl | cases h

theorem Cause.back_of_current {cause : Cause} (h : cause.site = .current) : cause.back = 0 := by
  cases cause <;> first | rfl | cases h

theorem Cause.eq_endOfInput {cause : Cause} (h : cause.site = .nowhere) : cause = .endOfInput := by
  cases cause <;> first | rfl | cases h

/-- An error that stands where it has to: the tokens before it begin a program, and with its own
token they no longer do. Only where all tokens begin a program may it be about their end. -/
def SyntaxError.Earliest (ts : List Token) (position : Nat) (e : SyntaxError) : Prop :=
  (e.message = "Cannot peek beyond end of input" ∧ Viable ts ∧ ¬ IsProgram ts) ∨
    ∃ i t, i + e.cause.back = position ∧ ts[i]? = some t ∧ e.token = some t ∧
      Viable (ts.take i) ∧ ¬ Viable (ts.take (i + 1))

theorem SyntaxError.Earliest.of_message_ne {ts : List Token} {position i : Nat} {e : SyntaxError}
    (h : e.Earliest ts position) (hmessage : e.message ≠ "Cannot peek beyond end of input")
    (hi : i + e.cause.back = position) : Viable (ts.take i) ∧ ¬ Viable (ts.take (i + 1)) := by
  rcases h with ⟨hend, -⟩ | ⟨j, t, hj, -, -, hviable⟩
  · exact absurd hend hmessage
  · obtain rfl : j = i := by omega
    exact hviable

theorem earliest_of_run_error {ts rest : List Token} {e : Failure}
    (hrun : run (Parser.program (.within maxNesting)) ts = (.error e, rest))
    (he : e.cause.site ≠ .anywhere) :
    (Failure.within ts e).Earliest ts (ts.length - rest.length) := by
  have hts := (program_sound (inner_within maxNesting) ts).explains
  rw [hrun] at hts
  obtain ⟨c, rfl, hsite | ⟨b, hb, hviable⟩⟩ := hts
  · exact absurd hsite he
  have hlen : (c ++ rest).length - rest.length = c.length := by simp
  rw [hlen]
  cases hb with
  | nowhere hs =>
    refine .inl ⟨?_, viable_of_begins hviable, fun hprogram => ?_⟩
    · rw [SyntaxError.message, Failure.within, Cause.eq_endOfInput hs]
      rfl
    · exact he (hprogram.not_run_error hrun)
  | @current _ rest t hs ht =>
    have htake : (c ++ t :: rest).take (c.length + 1) = c ++ [t] := by
      rw [List.append_cons]
      exact List.take_left' (by simp)
    refine .inr ⟨c.length, t, by rw [Failure.within, Cause.back_of_current hs, Nat.add_zero],
      by simp, ht, by simpa using viable_of_begins hviable, ?_⟩
    have hrun' : run (Parser.program (.within maxNesting)) (c ++ [t] ++ rest) =
        (.error e, [t] ++ rest) := by simpa using hrun
    rw [htake]
    exact not_viable_of_settled hrun' (.inr ⟨hs, List.cons_ne_nil t []⟩)
  | @taken _ _ t hs ht _ =>
    have htake : (b ++ [t] ++ rest).take (b.length + 1) = b ++ [t] := List.take_left' (by simp)
    refine .inr ⟨b.length, t, by rw [Failure.within, Cause.back_of_taken hs]; simp,
      by simp, ht, by simpa [List.take_append] using viable_of_begins hviable, ?_⟩
    rw [htake]
    exact not_viable_of_settled (r := []) hrun (.inl hs)

/-- A beginning of a program that is none itself is refused because it ends. -/
theorem endOfInput_of_beginning {u x : List Token} {p : Program}
    (h : parseProgram (u ++ x) = .ok p) (hu : ¬ IsProgram u) :
    ∃ e, parseProgram u = .error e ∧ e.message = "Cannot peek beyond end of input" := by
  have hwhole : run (Parser.program (.within maxNesting)) (u ++ x) = (.ok p, _) :=
    run_of_answer_ok h
  obtain ⟨d, -, hd⟩ := derives_of_run_program hwhole
  have hviable : Viable u := Viable.of_append (IsProgram.viable ⟨p.functions, d, hd⟩)
  rcases hrun : run (Parser.program (.within maxNesting)) u with ⟨failure | q, rest⟩
  · refine ⟨_, answer_of_run_error hrun, ?_⟩
    have hsite : failure.cause.site ≠ .anywhere := by
      intro hsite
      obtain ⟨nest, hcause⟩ : ∃ nest, failure.cause = .tooDeep nest := by
        cases hc : failure.cause <;> simp [hc, Cause.site] at hsite
        exact ⟨_, rfl⟩
      have hstops : StopsTooDeep (run (Parser.program (.within maxNesting)) u) :=
        ⟨nest, failure.token, rest, by rw [hrun, ← hcause]⟩
      obtain ⟨nest', token, rest', hdeep⟩ :=
        ((steady_program (steadyInner_within maxNesting)).at_tokens u).deep hstops x
      simp [hwhole] at hdeep
    rcases earliest_of_run_error hrun hsite with ⟨hmessage, -, -⟩ | ⟨i, t, -, -, -, -, hnot⟩
    · exact hmessage
    · refine absurd ?_ hnot
      rw [← List.take_append_drop (i + 1) u] at hviable
      exact hviable.of_append
  · obtain ⟨d', -, hd'⟩ := derives_of_run_program hrun
    exact absurd ⟨q.functions, d', hd'⟩ hu

/-- A parse that fails, but not for the depth of the nesting, reports the first token behind which
no program can go on, or the end where there is none. So a beginning of an accepted program that is
no program itself only ever lacks its end. -/
theorem parseProgram_error_earliest (ts : List Token) :
    (∀ e, parseProgram ts = .error e → ¬ e.NestedTooDeeply →
      e.Earliest ts (Session.start ts).next.position) ∧
    ∀ n p, parseProgram ts = .ok p → ¬ IsProgram (ts.take n) →
      ∃ e, parseProgram (ts.take n) = .error e ∧ e.message = "Cannot peek beyond end of input" := by
  constructor
  · intro e h hshallow
    obtain ⟨failure, hrun, rfl⟩ := run_of_answer_error h
    refine earliest_of_run_error hrun fun hsite => hshallow ?_
    rcases failure with ⟨cause, token⟩
    cases cause <;> simp [Cause.site] at hsite
    exact nestedTooDeeply_within _ token ts
  · intro n p h hnot
    rw [← List.take_append_drop n ts] at h
    exact endOfInput_of_beginning h hnot

def functionHead : List Token :=
  [.identifier, .identifier, .leftParen, .rightParen, .leftBrace].map someToken

def literalTooLarge : List Token :=
  functionHead ++ [someToken .reservedReturn,
    ⟨.intLiteral, .origin, .origin, "9223372036854775808"⟩, someToken .semicolon]

def bracketUnopened : List Token :=
  functionHead ++ [.identifier, .equals, .identifier, .rightParen, .semicolon].map someToken

def wholeFunction : List Token :=
  functionHead ++ [.identifier, .equals, .identifier, .semicolon, .rightBrace].map someToken

/-- An integer out of range is refused when it is taken, and stands one token back. A bracket that
closes nothing is refused where it stands. A function that breaks off inside of an assignment lacks
only its end. -/
theorem parseProgram_error_earliest_of_literal :
    (∃ e, parseProgram literalTooLarge = .error e ∧ e.cause.back = 1 ∧
      e.Earliest literalTooLarge 7 ∧
      Viable (literalTooLarge.take 6) ∧ ¬ Viable (literalTooLarge.take 7)) ∧
    (∃ e, parseProgram bracketUnopened = .error e ∧ e.cause.back = 0 ∧
      e.Earliest bracketUnopened 8 ∧
      Viable (bracketUnopened.take 8) ∧ ¬ Viable (bracketUnopened.take 9)) ∧
    ∃ e, parseProgram (wholeFunction.take 8) = .error e ∧
      e.message = "Cannot peek beyond end of input" := by
  refine ⟨?_, ?_, ?_⟩
  · have hposition : (Session.start literalTooLarge).next.position = 7 := by decide +kernel
    have hfails : parseProgram literalTooLarge =
        .error ⟨.integerRange "9223372036854775808", .origin, literalTooLarge[6]?⟩ := rfl
    have he := (parseProgram_error_earliest literalTooLarge).1 _ hfails (by decide)
    rw [hposition] at he
    exact ⟨_, hfails, rfl, he, he.of_message_ne (by decide) rfl⟩
  · have hposition : (Session.start bracketUnopened).next.position = 8 := by decide +kernel
    have hfails : parseProgram bracketUnopened =
        .error ⟨.missing .semicolon .expression, .origin, bracketUnopened[8]?⟩ := rfl
    have he := (parseProgram_error_earliest bracketUnopened).1 _ hfails (by decide)
    rw [hposition] at he
    exact ⟨_, hfails, rfl, he, he.of_message_ne (by decide) rfl⟩
  · obtain ⟨p, hp⟩ : ∃ p, parseProgram wholeFunction = .ok p := ⟨_, rfl⟩
    apply (parseProgram_error_earliest wholeFunction).2 8 p hp
    intro h
    have hrun : run (Parser.program (.within 4)) (wholeFunction.take 8) =
        (.error ⟨.endOfInput, none⟩, []) := rfl
    cases h.not_run_error hrun

end BraceLang.Grammar
