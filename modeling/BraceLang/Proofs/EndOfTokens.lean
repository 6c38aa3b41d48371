import BraceLang.Proofs.UnreadTokens

/-!
# Errors about the end of the tokens

A parser that needs a token where none is left says so, and its error stands where the last token
stops. For an expression this is all there is. A statement and the start of a loop look behind a
name, for the second name of a declaration. Where there is none the error is about the end of the
tokens as well, but it points at the name, which is left: it stands where the last token starts.

So how far the parser got tells the two apart, and they can only differ where a name is last.
-/

namespace BraceLang.Grammar

open BraceLang.Grammar.Parser

variable {α : Type} {spare : Nat}

/-- The texts of the other causes, which all start with other letters. -/
theorem Cause.head?_message {cause : Cause} (h : cause ≠ .endOfInput)
    (hother : ∀ text, cause ≠ .other text) :
    ∃ c ∈ ['S', 'E', 'U', 'I', 'M'], cause.message.toList.head? = some c := by
  have hwrapped {text : String} {c : Char} (htext : text.toList.head? = some c)
      (quoted next : String) : (text ++ quoted ++ next).toList.head? = some c :=
    head?_toList_append (head?_toList_append htext quoted) next
  cases cause with
  | endOfInput => exact absurd rfl h
  | tooDeep nest =>
    cases nest with
    | statement => exact ⟨'S', by decide, rfl⟩
    | expression => exact ⟨'E', by decide, rfl⟩
  | mismatch expected actual =>
    exact ⟨'E', by decide, hwrapped (hwrapped rfl expected.label _) actual.label _⟩
  | missing expected place => exact ⟨'E', by decide, head?_toList_append (hwrapped rfl _ _) _⟩
  | noAtom kind => exact ⟨'U', by decide, hwrapped rfl kind.label _⟩
  | integerRange lexeme => exact ⟨'I', by decide, hwrapped rfl lexeme _⟩
  | malformedFloat lexeme => exact ⟨'M', by decide, hwrapped rfl lexeme _⟩
  | trailing t => exact ⟨'U', by decide, hwrapped rfl t.text _⟩
  | other text => exact absurd rfl (hother text)

/-- Of the causes that a parser gives only one has the text about the end of the tokens. -/
theorem Failure.Quotes.cause_eq {e : Failure} (hq : e.Quotes)
    (h : e.cause.message = Cause.endOfInput.message) : e.cause = .endOfInput := by
  refine Classical.byContradiction fun hne => ?_
  obtain ⟨c, hc, hhead⟩ := Cause.head?_message hne fun text htext => by
    rw [Failure.Quotes, htext] at hq
    exact hq
  rw [h] at hhead
  obtain rfl : 'C' = c := Option.some.inj hhead
  exact absurd hc (by decide)

/-- The error has no token and stands where the tokens end. -/
def SyntaxError.AtEnd (ts : List Token) (e : SyntaxError) : Prop :=
  e.token = none ∧ e.location = endLocation ts

/-- The error points at the last token, which is a name. -/
def SyntaxError.AtLastName (ts : List Token) (e : SyntaxError) : Prop :=
  ∃ t, ts.getLast? = some t ∧ t.kind = .identifier ∧ e.token = some t ∧ e.location = t.start

/-- With no token left the error is at the end, and with a token to spare it may be at that one. -/
theorem Sighted.stands_of_endOfInput {p : Parser α} {m : α → α} (hp : Sighted spare p)
    (hspare : spare ≤ 1) (hm : Moves id m p p) {ts : List Token} {e : SyntaxError}
    (h : (p ts).answer ts = .error e) (hmessage : e.message = "Cannot peek beyond end of input") :
    (ts.length - (p ts).rest.length = ts.length ∧ e.AtEnd ts) ∨
      (spare = 1 ∧ ts.length - (p ts).rest.length + 1 = ts.length ∧ e.AtLastName ts) := by
  obtain ⟨failure, hrun, rfl⟩ := run_of_answer_error h
  obtain ⟨htoken, hlength, hnames⟩ :=
    ((hp ts).stops hrun).ended ((hm.quotes hrun).cause_eq hmessage)
  have hsuffix := (hp ts).suffix
  have hrest : (p ts).rest = (run p ts).2 := rfl
  rw [hrest]
  rw [hrun] at hsuffix ⊢
  generalize (p ts).rest = rest at *
  match rest, hlength with
  | [], _ =>
    refine .inl ⟨Nat.sub_zero _, htoken, ?_⟩
    rw [Failure.within, htoken]
    rfl
  | [t], hlength =>
    obtain ⟨c, rfl⟩ := hsuffix
    refine .inr ⟨Nat.le_antisymm hspare hlength, by simp, t, by simp, hnames t (by simp), htoken,
      ?_⟩
    rw [Failure.within, htoken]
    rfl
  | _ :: _ :: rest, hlength =>
    simp at hlength
    omega

/-- An error about the end of the tokens stands there, unless the parser of programs got no further
than the last token, which is a name. Then it stands where this name starts. -/
theorem endOfInput_stands (ts : List Token) :
    (∀ e, parseProgram ts = .error e → e.message = "Cannot peek beyond end of input" →
      ((Session.start ts).next.position = ts.length ∧ e.AtEnd ts) ∨
        ((Session.start ts).next.position + 1 = ts.length ∧ e.AtLastName ts)) ∧
    ∀ e, parseExpression ts = .error e → e.message = "Cannot peek beyond end of input" →
      e.AtEnd ts := by
  have hid : Relocates (id : Token → Token) := ⟨fun _ => rfl, fun _ => rfl⟩
  constructor
  · intro e he hmessage
    exact ((sighted_programParser maxNesting).stands_of_endOfInput (Nat.le_refl 1)
      (moves_programParser hid maxNesting) he hmessage).imp_right And.right
  · intro e he hmessage
    have hsighted : Sighted 0 (expressionParser maxNesting) :=
      sighted_wholeExpression (sightedInner_within (Nat.zero_le 1) maxNesting)
    rcases hsighted.stands_of_endOfInput (Nat.zero_le 1) (moves_expressionParser hid maxNesting) he
      hmessage with h | ⟨h, -⟩
    · exact h.2
    · cases h

def namedInBlock : List Token :=
  (tokenize "int f()\x7bx").tokens

theorem parseProgram_namedInBlock : parseProgram namedInBlock =
    .error ⟨.endOfInput, ⟨1, 9⟩, some ⟨.identifier, ⟨1, 9⟩, ⟨1, 10⟩, "x"⟩⟩ := by
  have htokens : namedInBlock = [⟨.identifier, ⟨1, 1⟩, ⟨1, 4⟩, "int"⟩,
      ⟨.identifier, ⟨1, 5⟩, ⟨1, 6⟩, "f"⟩, ⟨.leftParen, ⟨1, 6⟩, ⟨1, 7⟩, "("⟩,
      ⟨.rightParen, ⟨1, 7⟩, ⟨1, 8⟩, ")"⟩, ⟨.leftBrace, ⟨1, 8⟩, ⟨1, 9⟩, "\x7b"⟩,
      ⟨.identifier, ⟨1, 9⟩, ⟨1, 10⟩, "x"⟩] := by decide +kernel
  rw [htokens]
  rfl

/-- The block leaves the name, and the expression nothing. -/
theorem endOfInput_stands_named :
    (∃ e, parseProgram namedInBlock = .error e ∧ e.AtLastName namedInBlock) ∧
    ∃ e, parseExpression [someToken .identifier, someToken .plus] = .error e ∧
      e.AtEnd [someToken .identifier, someToken .plus] := by
  constructor
  · obtain ⟨-, ⟨-, hlocation⟩⟩ | ⟨-, hlast⟩ :=
      (endOfInput_stands namedInBlock).1 _ parseProgram_namedInBlock rfl
    · exact absurd hlocation (by decide +kernel)
    · exact ⟨_, parseProgram_namedInBlock, hlast⟩
  · exact ⟨_, rfl, (endOfInput_stands _).2 _ rfl rfl⟩

/-- So an error about the end of the tokens need not stand there: here it stands one column before,
and it has a token. -/
theorem endOfInput_stands_at_name :
    (∃ e, parseProgram namedInBlock = .error e ∧ e.message = "Cannot peek beyond end of input" ∧
      e.token ≠ none ∧ ¬ e.AtEnd namedInBlock) ∧
    (parse namedInBlock).diagnostics =
      [⟨.parser, ⟨1, 9⟩, "Cannot peek beyond end of input"⟩] ∧
    endLocation namedInBlock = ⟨1, 10⟩ := by
  refine ⟨⟨_, parseProgram_namedInBlock, rfl, nofun, fun hend => nomatch hend.1⟩, ?_,
    by decide +kernel⟩
  rw [parse, parseProgram_namedInBlock]
  rfl

end BraceLang.Grammar
