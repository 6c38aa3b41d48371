import BraceLang.Proofs.ForLoop
import BraceLang.Proofs.Limit

/-!
# An expression alone and behind `return`

Tokens are read as an expression on their own just if they are read as the value of a `return`, with
the same tree: at the end of the tokens an expression ends as it does at the semicolon. Behind the
`return` the expression is one level of nesting further down. That level is all that can be missing
there, and then the error is about the expression, because a parser of expressions never gets to a
statement.
-/

namespace BraceLang.Grammar

open BraceLang.Grammar.Parser (run someToken)

section

variable {α : Type} {inner : Nested} {room : Nat} {failure : Failure} {ts rest : List Token}

theorem Parser.run_many_of_error {test : Parser Bool} {item : Parser α} (ht : Looks test)
    (hi : Progresses item) (htest : run test ts = (.ok true, ts))
    (h : run item ts = (.error failure, rest)) :
    run (many test item) ts = (.error failure, rest) := by
  rw [run_many ht hi, Parser.round, run_bind_of_ok _ htest, if_pos rfl]
  exact run_bind_of_error _ h

theorem run_result_of_error {k t : Token} (hk : k.kind = .reservedReturn)
    (ht : t.kind ≠ .semicolon)
    (h : run (Parser.expression inner) (t :: ts) = (.error failure, rest)) :
    run (Parser.result inner) (k :: t :: ts) = (.error failure, rest) := by
  have hvalue : run (Parser.returned? inner) (t :: ts) = (.error failure, rest) := by
    rw [Parser.returned?, Parser.run_current_cons_bind, if_neg ht, Parser.run_map]
    exact Parser.run_bind_of_error _ h
  rw [Parser.result, Parser.run_enter_bind, Parser.run_expect_bind _ hk]
  exact Parser.run_bind_of_error _ hvalue

theorem run_statement_of_result {k : Token} (hk : k.kind = .reservedReturn) :
    run (Parser.statement (.within (room + 1))) (k :: ts) =
      run (Parser.result (.within room)) (k :: ts) := by
  rw [Parser.statement, Parser.run_enter_bind]
  exact run_dispatch_of_kind ts hk rfl

/-- A statement that fails at the start of a function fails the program. -/
theorem Fills.run_program_of_error {type name k : Token} {body us : List Token}
    (hus : Fills (functionForm type name [.tokens (k :: body)]) us)
    (ht : type.kind = .identifier) (hn : name.kind = .identifier) (hk : k.kind ≠ .rightBrace) :
    ∃ r : Token, ∀ room failure rest,
      run (Parser.statement (.within room)) (k :: (body ++ [r])) = (.error failure, rest) →
        run (Parser.program (.within room)) us = (.error failure, rest) := by
  obtain ⟨o, c, l, _, r, rfl, ho, hc, hl, ⟨_, rfl, rfl⟩, -⟩ := hus.of_functionForm
  refine ⟨r, fun room failure rest h => ?_⟩
  rw [List.append_nil, List.cons_append]
  have hinside : run Parser.insideBlock (k :: (body ++ [r])) = (.ok true, k :: (body ++ [r])) := by
    rw [run_insideBlock, decide_eq_true hk]
  have hblock : run (Parser.block (.within room)) (l :: k :: (body ++ [r])) =
      (.error failure, rest) := by
    rw [Parser.block, Parser.run_enter_bind, Parser.run_expect_bind _ hl]
    exact Parser.run_bind_of_error _ (Parser.run_many_of_error looks_insideBlock
      (Phrase.Parsed.statement_progresses room) hinside h)
  have hparams : run Parser.paramList (c :: l :: k :: (body ++ [r])) =
      (.ok [], c :: l :: k :: (body ++ [r])) := by
    rw [Parser.paramList, Parser.run_current_cons_bind, if_pos hc, Parser.run_pure]
  have hfunction : run (Parser.function (.within room))
      (type :: name :: o :: c :: l :: k :: (body ++ [r])) = (.error failure, rest) := by
    rw [Parser.function, Parser.run_enter_bind, Parser.run_expect_bind _ ht,
      Parser.run_expect_bind _ hn, Parser.run_expect_bind _ ho, Parser.run_bind_of_ok _ hparams,
      Parser.run_expect_bind _ hc]
    exact Parser.run_bind_of_error _ hblock
  rw [Parser.program, Parser.run_enter_bind]
  exact Parser.run_bind_of_error _ (Parser.run_many_of_error looks_moreTokens
    (Phrase.Parsed.function_progresses room) (run_moreTokens _) hfunction)

end

/-- `return value;` -/
def returnForm (keyword : Token) (value : List Token) : List Slot :=
  [.tokens [keyword], .tokens value, .mark .semicolon]

section

variable {type name keyword : Token} {ts us : List Token} {e : Expr} {d : Nat}

/-- The tokens of the body, with the semicolon that is in its place. -/
theorem Fills.of_returnForm (hus : Fills (functionForm type name (returnForm keyword ts)) us) :
    ∃ t, t.kind = .semicolon ∧
      Fills (functionForm type name [.tokens (keyword :: (ts ++ [t]))]) us := by
  obtain ⟨o, c, l, _, r, rfl, ho, hc, hl, ⟨_, rfl, _, rfl, t, _, rfl, ht, rfl⟩, hr⟩ :=
    hus.of_functionForm
  refine ⟨t, ht, _, rfl, o, _, rfl, ho, c, _, rfl, hc, l, _, rfl, hl, _, ?_, r, _, rfl, hr, rfl⟩
  simp

theorem Derives.returned (h : Derives (.expr .expression e) d ts)
    (hus : Fills (functionForm type name (returnForm keyword ts)) us)
    (ht : type.kind = .identifier) (hn : name.kind = .identifier)
    (hk : keyword.kind = .reservedReturn) :
    Derives (.functions [⟨type, name, [], [.result keyword (some e)]⟩]) (d + 1) us := by
  obtain ⟨t, hsemi, hus⟩ := hus.of_returnForm
  obtain ⟨_, ⟨_, rfl, rfl⟩, hfunction⟩ := hus.derives_functionForm ht hn
  rw [List.append_nil] at hfunction
  exact hfunction _ _ (Derives.result hk h.value hsemi).single_stmt

theorem Derives.of_returned {g : Function} {k : Token} (h : Derives (.functions [g]) d us)
    (hus : Fills (functionForm type name (returnForm keyword ts)) us)
    (hbody : g.body = [.result k (some e)]) : ∃ d', Derives (.expr .expression e) d' ts := by
  obtain ⟨t, hsemi, hus⟩ := hus.of_returnForm
  obtain ⟨_, hg⟩ := h.single_function
  obtain ⟨-, -, hstmts⟩ := hg.stmts_of_functionForm hus
  rw [hbody] at hstmts
  obtain ⟨_, _, hstmt⟩ := hstmts.of_single_stmt
  generalize hts : keyword :: (ts ++ [t]) = body at hstmt
  cases hstmt with
  | stmt hform =>
    cases hform with
    | result _ hvalue _ =>
      obtain ⟨-, hts⟩ := List.cons.inj hts
      obtain ⟨rfl, -⟩ := List.append_inj' hts rfl
      cases hvalue with
      | value he => exact ⟨_, he⟩

/-- Behind `return` it takes one level more than alone to read the expression. -/
theorem Derives.run_returned_tooDeep (h : Derives (.expr .expression e) d ts)
    (hus : Fills (functionForm type name (returnForm keyword ts)) us)
    (ht : type.kind = .identifier) (hn : name.kind = .identifier)
    (hk : keyword.kind = .reservedReturn) (room : Nat) (hd : room < d) :
    ∃ token rest, run (Parser.program (.within (room + 1))) us =
      (.error ⟨.tooDeep .expression, token⟩, rest) := by
  obtain ⟨t, hsemi, hus⟩ := hus.of_returnForm
  obtain ⟨r, hprogram⟩ := hus.run_program_of_error ht hn (by simp [hk])
  obtain ⟨u, vs, rfl, hu⟩ := h.head rfl
  have hread : Meets room d (run (Parser.expression (.within room)) (u :: vs ++ [t, r])) _ :=
    h.parsed.read_cons room (by rw [hsemi]; rfl)
  rw [Meets, if_neg (Nat.not_le_of_lt hd)] at hread
  obtain ⟨nest, token, rest, hrun⟩ := hread
  have habout := compares_expression closed_aboutExpressions (aboutExpressionsInner_within room)
  obtain rfl := habout.nest_eq_expression hrun
  have hresult := run_result_of_error hk (hu.expr_ne rfl rfl) hrun
  have hstatement := (run_statement_of_result hk).trans hresult
  exact ⟨token, rest, hprogram _ _ _ (by simpa using hstatement)⟩

/-- An expression is read alone just if it is read as what a function returns, with the same tree,
unless it is only behind the `return` that it is nested too deeply. -/
theorem parse_returned (ht : type.kind = .identifier) (hn : name.kind = .identifier)
    (hk : keyword.kind = .reservedReturn)
    (hus : Fills (functionForm type name (returnForm keyword ts)) us) (e : Expr) :
    (∀ g k, parseProgram us = .ok ⟨[g]⟩ → g.body = [.result k (some e)] →
      parseExpression ts = .ok e) ∧
    (parseExpression ts = .ok e →
      parseProgram us = .ok ⟨[⟨type, name, [], [.result keyword (some e)]⟩]⟩ ∨
      ∃ err, parseProgram us = .error err ∧ err.message = "Expression nested too deeply") := by
  constructor
  · intro g k hp hbody
    obtain ⟨d, hd, hg⟩ := (recognizes_parseProgram.ok_iff _ _).mp hp
    obtain ⟨d', he⟩ := hg.of_returned hus hbody
    -- the program has one depth, and so the expression has a level to spare
    obtain ⟨-, rfl⟩ := hg.functions_unique (he.returned hus ht hn hk)
    exact (recognizes_parseExpression.ok_iff _ _).mpr ⟨d', by omega, he⟩
  · intro he
    obtain ⟨d, -, hd⟩ := (recognizes_parseExpression.ok_iff _ _).mp he
    by_cases hle : d + 1 ≤ maxNesting
    · exact .inl ((recognizes_parseProgram.ok_iff _ _).mpr ⟨_, hle, hd.returned hus ht hn hk⟩)
    · obtain ⟨_, _, hrun⟩ := hd.run_returned_tooDeep hus ht hn hk 255
        (Nat.lt_of_succ_lt_succ (Nat.lt_of_not_le hle))
      exact .inr ⟨_, answer_of_run_error hrun, rfl⟩

end

def signedReturnForm (n : Nat) : List Slot :=
  functionForm (someToken .identifier) (someToken .identifier)
    (returnForm (someToken .reservedReturn)
      (List.replicate n (someToken .minus) ++ [someToken .identifier]))

theorem derives_signedReturnForm (n : Nat) :
    Derives (.functions [⟨someToken .identifier, someToken .identifier, [],
      [.result (someToken .reservedReturn) (some (signed n))]⟩]) (n + 2)
      (filled (signedReturnForm n)) :=
  (derives_signed n).returned (fills_filled (signedReturnForm n)) rfl rfl rfl

/-- Behind `return` a name with 254 signs is read as it is alone. With 255 signs it is read alone
only. -/
theorem parse_returned_signs :
    parseExpression (List.replicate 254 (someToken .minus) ++ [someToken .identifier]) =
      .ok (signed 254) ∧
    parseExpression (List.replicate 255 (someToken .minus) ++ [someToken .identifier]) =
      .ok (signed 255) ∧
    ∃ err, parseProgram (filled (signedReturnForm 255)) = .error err ∧
      err.message = "Expression nested too deeply" := by
  have hread := (recognizes_parseProgram.ok_iff _ ⟨[_]⟩).mpr
    ⟨256, by decide, derives_signedReturnForm 254⟩
  have halone := (recognizes_parseExpression.ok_iff _ _).mpr
    ⟨256, by decide, derives_signed 255⟩
  have h254 := parse_returned rfl rfl rfl (fills_filled (signedReturnForm 254)) (signed 254)
  have h255 := parse_returned rfl rfl rfl (fills_filled (signedReturnForm 255)) (signed 255)
  refine ⟨h254.1 _ _ hread rfl, halone, (h255.2 halone).resolve_left fun hp => ?_⟩
  -- the program has only the derivation with one level too many
  obtain ⟨d, hd, hg⟩ := (recognizes_parseProgram.ok_iff _ _).mp hp
  obtain ⟨-, rfl⟩ := hg.functions_unique (derives_signedReturnForm 255)
  exact absurd hd (by decide)

end BraceLang.Grammar
