import BraceLang.Proofs.Completeness

/-!
# The parser recognizes its grammar

Soundness and completeness together: a parse succeeds exactly on the tokens that the grammar derives
within the limit on nesting, with the tree that it derives. In particular no tokens derive two trees
or the same tree with different depths. A list of functions is read to its end, because the test for
further functions only fails there.
-/

namespace BraceLang.Grammar

open BraceLang.Grammar.Parser

/-- A repetition that succeeds ends where its test says no. -/
theorem Parser.run_many_ok {α : Type} {test : Parser Bool} {item : Parser α} (ht : Looks test)
    (hi : Progresses item) {ts rest : List Token} {as : List α}
    (h : run (many test item) ts = (.ok as, rest)) : (run test rest).1 = .ok false := by
  induction hn : ts.length using Nat.strongRecOn generalizing ts as with
  | ind n ih =>
    rw [run_many ht hi, Parser.round, run_bind] at h
    rcases htest : run test ts with ⟨_ | b, mid⟩
    · simp [htest] at h
    obtain rfl : mid = ts := by simpa [htest] using ht.keeps ts
    rw [htest] at h
    cases b with
    | false =>
      simp only [Bool.false_eq_true, if_false, run_pure] at h
      obtain ⟨-, rfl⟩ := Prod.mk.inj h
      rw [htest]
    | true =>
      simp only [if_true] at h
      rw [run_bind] at h
      rcases hitem : run item mid with ⟨_ | a, later⟩
      · simp [hitem] at h
      rw [hitem] at h
      simp only [run_map, run_bind] at h
      rcases hmore : run (many test item) later with ⟨_ | as', last⟩
      · simp [hmore] at h
      · rw [hmore] at h
        obtain ⟨-, rfl⟩ := Prod.mk.inj h
        exact ih _ (hn ▸ hi hitem) hmore rfl

theorem run_program_ok {room : Nat} {ts rest : List Token} {p : Program}
    (h : run (Parser.program (.within room)) ts = (.ok p, rest)) : rest = [] := by
  rw [Parser.program, run_enter_bind, run_bind] at h
  rcases hfs : run (many moreTokens (Parser.function (.within room))) ts with ⟨_ | fs, last⟩
  · simp [hfs] at h
  rw [hfs] at h
  obtain ⟨-, rfl⟩ := Prod.mk.inj h
  have hend := run_many_ok looks_moreTokens (Phrase.Parsed.function_progresses room) hfs
  rw [run_moreTokens] at hend
  simpa using hend

theorem run_wholeExpression (inner : Nested) (ts : List Token) :
    run (wholeExpression inner) ts =
      match run (Parser.expression inner) ts with
      | (.ok e, []) => (.ok e, [])
      | (.ok _, t :: rest) => (.error ⟨.trailing t, some t⟩, t :: rest)
      | (.error e, rest) => (.error e, rest) := by
  refine (run_bind _ _ ts).trans ?_
  rcases run (Parser.expression inner) ts with ⟨_ | e, _ | ⟨t, rest⟩⟩ <;> rfl

theorem Derives.run_program {p : Program} {d : Nat} {ts : List Token}
    (h : Derives (.functions p.functions) d ts) (room : Nat) :
    Meets room d (run (Parser.program (.within room)) ts) (.ok p, []) := by
  rw [Parser.program, run_enter_bind]
  exact ((h.parsed room).bind _).trans_eq (run_pure _ _)

theorem Derives.run_wholeExpression {e : Expr} {d : Nat} {ts : List Token}
    (h : Derives (.expr .expression e) d ts) (room : Nat) :
    Meets room d (run (wholeExpression (.within room)) ts) (.ok e, []) := by
  have he := h.parsed.read room (endsBefore_nil _) (by simp)
  rw [List.append_nil] at he
  exact (he.bind _).trans_eq rfl

theorem derives_of_run_program {room : Nat} {ts rest : List Token} {p : Program}
    (h : run (Parser.program (.within room)) ts = (.ok p, rest)) :
    ∃ d ≤ room, Derives (.functions p.functions) d ts := by
  have hts := (program_sound (inner_within room) ts).explains
  rw [h] at hts
  obtain ⟨d, c, hd, rfl, hp⟩ := hts
  rw [run_program_ok h, List.append_nil]
  exact ⟨d, hd, hp⟩

theorem derives_of_run_wholeExpression {room : Nat} {ts rest : List Token} {e : Expr}
    (h : run (wholeExpression (.within room)) ts = (.ok e, rest)) :
    ∃ d ≤ room, Derives (.expr .expression e) d ts := by
  have hts := (expression_sound (inner_within room) ts).explains
  rw [BraceLang.Grammar.run_wholeExpression] at h
  split at h
  · next hrun =>
    rw [hrun] at hts
    obtain ⟨d, c, hd, rfl, he⟩ := hts
    obtain ⟨⟨⟩, -⟩ := Prod.mk.inj h
    rw [List.append_nil]
    exact ⟨d, hd, he⟩
  · simp at h
  · simp at h

theorem Meets.unique {α : Type} {d d' : Nat} {a a' : α} {rest rest' : List Token}
    {r : Nat → Except Failure α × List Token} (h : ∀ room, Meets room d (r room) (.ok a, rest))
    (h' : ∀ room, Meets room d' (r room) (.ok a', rest')) : a = a' ∧ d = d' := by
  have hle : ∀ {e e' : Nat} {b b' : α} {m m' : List Token},
      (∀ room, Meets room e (r room) (.ok b, m)) → (∀ room, Meets room e' (r room) (.ok b', m')) →
        e ≤ e' := by
    intro e e' b b' m m' hb hb'
    refine Nat.le_of_not_lt fun hlt => ?_
    have hdeep := hb e'
    have hread := hb' e'
    rw [Meets, if_neg (Nat.not_le_of_lt hlt)] at hdeep
    rw [Meets, if_pos (Nat.le_refl _)] at hread
    obtain ⟨nest, token, rest, hdeep⟩ := hdeep
    simp [hread] at hdeep
  obtain rfl : d = d' := Nat.le_antisymm (hle h h') (hle h' h)
  have hd := h d
  have hd' := h' d
  rw [Meets, if_pos (Nat.le_refl _)] at hd hd'
  rw [hd] at hd'
  obtain ⟨⟨⟩, -⟩ := Prod.mk.inj hd'
  exact ⟨rfl, rfl⟩

/-- A program has one tree, and one depth. -/
theorem Derives.program_unique {p p' : Program} {d d' : Nat} {ts : List Token}
    (h : Derives (.functions p.functions) d ts) (h' : Derives (.functions p'.functions) d' ts) :
    p = p' ∧ d = d' :=
  Meets.unique h.run_program h'.run_program

theorem Derives.functions_unique {fs fs' : List Function} {d d' : Nat} {ts : List Token}
    (h : Derives (.functions fs) d ts) (h' : Derives (.functions fs') d' ts) :
    fs = fs' ∧ d = d' :=
  (@Derives.program_unique ⟨fs⟩ ⟨fs'⟩ d d' ts h h').imp_left Program.mk.inj

/-- An expression has one tree, and one depth. -/
theorem Derives.expression_unique {e e' : Expr} {d d' : Nat} {ts : List Token}
    (h : Derives (.expr .expression e) d ts) (h' : Derives (.expr .expression e') d' ts) :
    e = e' ∧ d = d' :=
  Meets.unique h.run_wholeExpression h'.run_wholeExpression

def SyntaxError.NestedTooDeeply (e : SyntaxError) : Prop :=
  e.message = "Expression nested too deeply" ∨ e.message = "Statement nested too deeply"

instance (e : SyntaxError) : Decidable e.NestedTooDeeply :=
  inferInstanceAs (Decidable (_ ∨ _))

theorem nestedTooDeeply_within (nest : Nest) (token : Option Token) (ts : List Token) :
    (Failure.within ts ⟨.tooDeep nest, token⟩).NestedTooDeeply := by
  cases nest with
  | expression => exact .inl rfl
  | statement => exact .inr rfl

section Answer

variable {α : Type} {p : Parser α} {ts rest : List Token}

theorem answer_of_run_ok {a : α} (h : run p ts = (.ok a, rest)) : (p ts).answer ts = .ok a := by
  have hr : (p ts).result = .ok a := congrArg Prod.fst h
  rw [Outcome.answer, hr]
  rfl

theorem answer_of_run_error {failure : Failure} (h : run p ts = (.error failure, rest)) :
    (p ts).answer ts = .error (Failure.within ts failure) := by
  have hr : (p ts).result = .error failure := congrArg Prod.fst h
  rw [Outcome.answer, hr]
  rfl

theorem run_of_answer_ok {a : α} (h : (p ts).answer ts = .ok a) :
    run p ts = (.ok a, (p ts).rest) := by
  cases hr : (p ts).result with
  | ok b =>
    have hrun : run p ts = (.ok b, (p ts).rest) := Prod.ext hr rfl
    rw [answer_of_run_ok hrun] at h
    rw [hrun, Except.ok.inj h]
  | error failure =>
    have hrun : run p ts = (.error failure, (p ts).rest) := Prod.ext hr rfl
    rw [answer_of_run_error hrun] at h
    cases h

theorem run_of_answer_error {e : SyntaxError} (h : (p ts).answer ts = .error e) :
    ∃ failure, run p ts = (.error failure, (p ts).rest) ∧ e = Failure.within ts failure := by
  cases hr : (p ts).result with
  | ok a =>
    have hrun : run p ts = (.ok a, (p ts).rest) := Prod.ext hr rfl
    rw [answer_of_run_ok hrun] at h
    cases h
  | error failure =>
    have hrun : run p ts = (.error failure, (p ts).rest) := Prod.ext hr rfl
    rw [answer_of_run_error hrun] at h
    exact ⟨failure, hrun, (Except.error.inj h).symm⟩

end Answer

/-- A parse gives just what the grammar derives without going below the last level of nesting, and
what can only be derived with more levels is refused as nested too deeply. -/
structure Recognizes {α : Type} (parse : List Token → Except SyntaxError α) (phrase : α → Phrase) :
    Prop where
  ok_iff : ∀ ts a, parse ts = .ok a ↔ ∃ d ≤ maxNesting, Derives (phrase a) d ts
  tooDeep : ∀ ts a d, Derives (phrase a) d ts → maxNesting < d →
    ∃ e, parse ts = .error e ∧ e.NestedTooDeeply

/-- A parser that reads whole lists of tokens recognizes what it meets and what it is sound for. -/
theorem recognizes_answer {α : Type} {p : Parser α} {phrase : α → Phrase}
    (hs : ∀ {ts rest a}, run p ts = (.ok a, rest) → ∃ d ≤ maxNesting, Derives (phrase a) d ts)
    (hc : ∀ {ts a d}, Derives (phrase a) d ts → Meets maxNesting d (run p ts) (.ok a, [])) :
    Recognizes (fun ts => (p ts).answer ts) phrase where
  ok_iff ts a := by
    constructor
    · intro h
      exact hs (run_of_answer_ok h)
    · rintro ⟨d, hd, h⟩
      have hrun := hc h
      rw [Meets, if_pos hd] at hrun
      exact answer_of_run_ok hrun
  tooDeep ts a d h hd := by
    have hrun := hc h
    rw [Meets, if_neg (Nat.not_le_of_lt hd)] at hrun
    obtain ⟨nest, token, rest, hrun⟩ := hrun
    exact ⟨_, answer_of_run_error hrun, nestedTooDeeply_within nest token ts⟩

theorem recognizes_parseProgram : Recognizes parseProgram fun p => .functions p.functions :=
  recognizes_answer derives_of_run_program fun h => h.run_program maxNesting

theorem recognizes_parseExpression : Recognizes parseExpression (.expr .expression) :=
  recognizes_answer derives_of_run_wholeExpression fun h => h.run_wholeExpression maxNesting

theorem parse_of_ok {ts : List Token} {p : Program} (h : parseProgram ts = .ok p) :
    parse ts = ⟨some p, []⟩ := by
  rw [parse, h]

theorem parse_of_error {ts : List Token} {e : SyntaxError} (h : parseProgram ts = .error e) :
    parse ts = ⟨none, [e.diagnostic]⟩ := by
  rw [parse, h]

/-- A parse of a program gives the tree alone, or the one diagnostic of its error. -/
theorem parse_eq_some_iff {ts : List Token} {p : Program} :
    parse ts = ⟨some p, []⟩ ↔ parseProgram ts = .ok p := by
  refine ⟨fun h => ?_, parse_of_ok⟩
  cases hp : parseProgram ts with
  | ok q =>
    rw [parse_of_ok hp] at h
    cases h
    rfl
  | error e =>
    rw [parse_of_error hp] at h
    cases h

def signed : Nat → Expr
  | 0 => .var (someToken .identifier)
  | n + 1 => .unary .neg (someToken .minus) (signed n)

theorem derives_signed (n : Nat) : Derives (.expr .expression (signed n)) (n + 1)
    (List.replicate n (someToken .minus) ++ [someToken .identifier]) := by
  have h : Derives (.expr .unary (signed n)) n
      (List.replicate n (someToken .minus) ++ [someToken .identifier]) := by
    induction n with
    | zero => exact .tighter rfl (.tighter rfl (.var rfl))
    | succ n ih => exact .sign rfl ih
  exact .expression <| .tighter rfl <| .tighter rfl <| .tighter rfl <| .tighter rfl <|
    .tighter rfl h

def signedTokens (n : Nat) : List Token :=
  [someToken .identifier, someToken .identifier, someToken .leftParen, someToken .rightParen,
    someToken .leftBrace] ++ List.replicate n (someToken .minus) ++
  [someToken .identifier, someToken .semicolon, someToken .rightBrace]

end BraceLang.Grammar
