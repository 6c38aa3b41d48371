import BraceLang.Proofs.Comparison
import BraceLang.Proofs.Recognition
import BraceLang.Proofs.Steady

/-!
# The limit on nesting

Two parses of the same tokens that only differ in their limits do the same until one of them needs a
level that it may not open. There it stops, and the other one goes on from where it stands. So a
lower limit replaces some answers by an error about the nesting, and no answer by another one. A
parser of expressions never gets to a statement, and its error is about the nesting of expressions.
-/

namespace BraceLang.Grammar

/-- The first run does what the second one does, or it stops at its limit while the second one has
at least as many tokens behind it. -/
structure CutShort {α : Type} (ts : List Token) (o o' : Outcome α) : Prop where
  trims : o'.rest <:+ ts
  same_or_tooDeep : o = o' ∨ StopsTooDeep (o.result, o.rest) ∧ o'.rest <:+ o.rest

def cutShort : Comparison :=
  fun _ ts o o' => CutShort ts o o'

namespace CutShort

variable {α β : Type}

theorem of_suffix {ts : List Token} {o : Outcome α} (h : o.rest <:+ ts) : CutShort ts o o :=
  ⟨h, .inl rfl⟩

/-- With no level left to open, the run stops where it starts. -/
theorem tooDeep {nest : Nest} {ts : List Token} {o' : Outcome α} (h : o'.rest <:+ ts) :
    CutShort ts (Parser.fail (.tooDeep nest) ts) o' :=
  ⟨h, .inr ⟨⟨nest, ts.head?, ts, rfl⟩, h⟩⟩

theorem bind {p q : Parser α} {f g : α → Parser β} {ts : List Token}
    (hp : CutShort ts (p ts) (q ts)) (hf : ∀ a rest, CutShort rest (f a rest) (g a rest)) :
    CutShort ts ((p >>= f) ts) ((q >>= g) ts) := by
  have hq : ((q >>= g) ts).rest <:+ (q ts).rest := by
    rcases hrun : q ts with ⟨e | a, rest, steps⟩
    · exact ⟨[], congrArg Outcome.rest (Parser.bind_apply_of_error g hrun)⟩
    · rw [Parser.bind_apply_of_ok g hrun]
      exact (hf a rest).trims
  refine ⟨hq.trans hp.trims, ?_⟩
  rcases hp.same_or_tooDeep with hsame | ⟨⟨nest, token, rest, hdeep⟩, hrest⟩
  · rcases hrun : q ts with ⟨e | a, rest, steps⟩ <;> rw [hrun] at hsame
    · rw [Parser.bind_apply_of_error f hsame, Parser.bind_apply_of_error g hrun]
      exact .inl rfl
    · rw [Parser.bind_apply_of_ok f hsame, Parser.bind_apply_of_ok g hrun]
      rcases (hf a rest).same_or_tooDeep with hlater | hlater
      · rw [hlater]
        exact .inl rfl
      · exact .inr hlater
  · rcases hrun : p ts with ⟨result, mid, steps⟩
    rw [hrun] at hdeep hrest
    obtain ⟨rfl, -⟩ := Prod.mk.inj hdeep
    rw [Parser.bind_apply_of_error f hrun]
    exact .inr ⟨⟨nest, token, mid, rfl⟩, hq.trans hrest⟩

theorem deeper {p q : Parser α} {ts : List Token} (h : CutShort ts (p ts) (q ts)) :
    CutShort ts (p.deeper ts) (q.deeper ts) := by
  refine ⟨h.trims, h.same_or_tooDeep.imp_left fun hsame => ?_⟩
  rw [Parser.deeper, Parser.deeper, hsame]

end CutShort

theorem closed_cutShort : cutShort.Closed where
  pure _ _ := CutShort.of_suffix List.suffix_rfl
  failAt _ _ _ _ := CutShort.of_suffix List.suffix_rfl
  taken _ t rest := CutShort.of_suffix (List.suffix_cons t rest)
  enter _ _ := CutShort.of_suffix List.suffix_rfl
  bind hp hf ts := (hp ts).bind hf

theorem cutShortInner_within {room room' : Nat} (h : room ≤ room') :
    ComparesInner cutShort (.within room) (.within room') := by
  induction room generalizing room' with
  | zero =>
    have hinner := Parser.inner_within room'
    exact ⟨fun ts => .tooDeep (hinner.statement.trims.suffix ts),
      fun ts => .tooDeep (hinner.assignment.trims.suffix ts),
      fun ts => .tooDeep (hinner.unary.trims.suffix ts),
      fun ts => .tooDeep (hinner.power.trims.suffix ts)⟩
  | succ room ih =>
    obtain ⟨room', rfl⟩ := Nat.exists_eq_add_of_lt h
    have hR := closed_cutShort
    have hinner := ih (Nat.le_add_right room room')
    exact ⟨fun ts => (compares_dispatch hR hinner ts).deeper,
      fun ts => (compares_assignment hR hinner ts).deeper,
      fun ts => (compares_unary hR hinner ts).deeper,
      fun ts => (compares_power hR hinner ts).deeper⟩

/-- A failure of the one run is not about the nesting of statements. -/
def aboutExpressions : Comparison :=
  fun _ _ o _ => ∀ e, o.result = .error e → e.cause ≠ .tooDeep .statement

theorem closed_aboutExpressions : aboutExpressions.Closed where
  pure _ _ _ := nofun
  failAt _ _ hsite _ _ := by
    rintro ⟨⟩ rfl
    exact hsite rfl
  taken _ _ _ _ := nofun
  enter _ _ _ := nofun
  bind := by
    intro α β p q f g hp hf ts e he
    rcases hrun : p ts with ⟨e' | a, rest, steps⟩
    · rw [Parser.bind_apply_of_error f hrun] at he
      obtain rfl := Except.error.inj he
      exact hp ts e' (congrArg Outcome.result hrun)
    · rw [Parser.bind_apply_of_ok f hrun] at he
      exact hf a rest e he

def Nested.withoutStatements (inner : Nested) : Nested :=
  { inner with statement := Parser.fail .endOfInput }

-- No production of an expression looks at the parser of statements.
theorem assignment_withoutStatements (inner : Nested) :
    Parser.assignment inner.withoutStatements = Parser.assignment inner := rfl

theorem unary_withoutStatements (inner : Nested) :
    Parser.unary inner.withoutStatements = Parser.unary inner := rfl

theorem power_withoutStatements (inner : Nested) :
    Parser.power inner.withoutStatements = Parser.power inner := rfl

theorem aboutExpressionsInner_within (room : Nat) : ComparesInner aboutExpressions
    (Nested.within room).withoutStatements (Nested.within room).withoutStatements := by
  have hR := closed_aboutExpressions
  have hfail {α : Type} : Compares aboutExpressions
      (Parser.fail (.tooDeep .expression) : Parser α) (Parser.fail (.tooDeep .expression)) := by
    rintro ts e ⟨⟩
    exact nofun
  induction room with
  | zero => exact ⟨hR.fail nofun, hfail, hfail, hfail⟩
  | succ room ih =>
    have ha := compares_assignment hR ih
    have hu := compares_unary hR ih
    have hp := compares_power hR ih
    rw [assignment_withoutStatements] at ha
    rw [unary_withoutStatements] at hu
    rw [power_withoutStatements] at hp
    exact ⟨hR.fail nofun, fun ts => ha ts, fun ts => hu ts, fun ts => hp ts⟩

/-- Where a parser of expressions finds something nested too deeply, it is an expression. -/
theorem Compares.nest_eq_expression {α : Type} {p q : Parser α} (h : Compares aboutExpressions p q)
    {ts rest : List Token} {nest : Nest} {token : Option Token}
    (hrun : Parser.run p ts = (.error ⟨.tooDeep nest, token⟩, rest)) : nest = .expression := by
  have habout := h ts _ (congrArg Prod.fst hrun)
  cases nest with
  | statement => exact absurd rfl habout
  | expression => rfl

/-- The first outcome is the second one, or the error that the nesting is too deep, with no more
tokens taken. -/
def Outcome.Restricts {α : Type} (ts : List Token) (o o' : Outcome α) : Prop :=
  o = o' ∨ ∃ e, o.answer ts = .error e ∧ e.NestedTooDeeply ∧ o'.rest <:+ o.rest

theorem CutShort.restricts {α : Type} {ts : List Token} {o o' : Outcome α}
    (h : CutShort ts o o') : o.Restricts ts o' := by
  refine h.same_or_tooDeep.imp_right ?_
  rintro ⟨⟨nest, token, rest, hdeep⟩, hrest⟩
  refine ⟨_, ?_, nestedTooDeeply_within nest token ts, hrest⟩
  rw [Outcome.answer, (Prod.mk.inj hdeep).1]
  rfl

/-- A lower limit changes nothing but to refuse what is nested too deeply, no later than a higher
limit comes to an end. -/
theorem lower_limit_restricts {limit limit' : Nat} (h : limit ≤ limit') (ts : List Token) :
    (programParser limit ts).Restricts ts (programParser limit' ts) ∧
    (expressionParser limit ts).Restricts ts (expressionParser limit' ts) := by
  have hR := closed_cutShort
  have hinner := cutShortInner_within h
  exact ⟨CutShort.restricts (compares_program hR hinner ts),
    CutShort.restricts (compares_wholeExpression hR hinner ts)⟩

/-- A name behind two signs is nested four levels deep as a statement of a function. With a level
less it is refused before its end, and a level more makes no difference. -/
theorem lower_limit_restricts_signs :
    (∃ e, (programParser 3 (signedTokens 2)).answer (signedTokens 2) = .error e ∧
      e.NestedTooDeeply ∧
      (programParser 4 (signedTokens 2)).rest <:+ (programParser 3 (signedTokens 2)).rest) ∧
    programParser 4 (signedTokens 2) = programParser 5 (signedTokens 2) := by
  have hless := (lower_limit_restricts (by decide : 3 ≤ 4) (signedTokens 2)).1
  have hmore := (lower_limit_restricts (by decide : 4 ≤ 5) (signedTokens 2)).1
  have hrefused : (programParser 3 (signedTokens 2)).result.toOption.isSome = false := by
    decide +kernel
  have hread : (programParser 4 (signedTokens 2)).result.toOption.isSome = true := by
    decide +kernel
  refine ⟨hless.resolve_left fun h => ?_, hmore.resolve_right ?_⟩
  · rw [h, hread] at hrefused
    cases hrefused
  · rintro ⟨e, he, -⟩
    obtain ⟨failure, hrun, -⟩ := run_of_answer_error he
    rw [show (programParser 4 (signedTokens 2)).result = .error failure from
      congrArg Prod.fst hrun] at hread
    cases hread

end BraceLang.Grammar
