import BraceLang.Proofs.Steady

/-!
# Every production is steady

One lemma for each production, from the parts it is made of. Most parts end with a token that they
have to take, and the part behind one that does not is quiet at the end of the tokens.

Only two productions look past the next token, an atom and a statement, and only if it is a name. A
lone name decides nothing for them; what matters there is that they use up the name (`Grips`).
-/

namespace BraceLang.Grammar

open BraceLang.Grammar.Parser

variable {α β : Type}

/-- A test that makes nothing unsteady, as long as it is no use to go on at the end of the
tokens. -/
structure Tests (test : Parser Bool) : Prop where
  looks : Looks test
  quiet : Quiet test
  bind : ∀ ⦃β : Type⦄ (f : Bool → Parser β), (∀ b, Steady (f b)) → Quiet (f false) →
    Steady (test >>= f)

theorem tests_atComma : Tests atComma where
  looks := looks_atComma
  quiet := Quiet.current_bind
  bind β f hf _ := (Steady.current_bind fun k => hf (k = .comma)).congr fun ts => by
    cases ts <;> rfl

theorem tests_insideBlock : Tests insideBlock where
  looks := looks_insideBlock
  quiet := Quiet.current_bind
  bind β f hf _ := (Steady.current_bind fun k => hf (k ≠ .rightBrace)).congr fun ts => by
    cases ts <;> rfl

theorem tests_moreTokens : Tests moreTokens where
  looks := looks_moreTokens
  quiet := not_stopsTooDeep_ok
  bind β f hf hq := by
    have ht : Trims moreTokens := fun ts =>
      ⟨[], rfl, fun e he => by rw [run_moreTokens] at he; cases he⟩
    refine .of_cons (ht.bind fun b => (hf b).trims) ?_ fun t u => ?_
    · rwa [Quiet, run_bind_of_ok f (run_moreTokens [])]
    · exact ((hf true).at_tokens (t :: u)).congr fun x =>
        run_bind_of_ok f (run_moreTokens (t :: (u ++ x)))

theorem Quiet.manyUpTo {test : Parser Bool} (ht : Tests test) (item : Parser α)
    (bound : List Token) : Quiet (Parser.manyUpTo test item bound) := by
  have hnil : run (Parser.manyUpTo test item bound) [] =
      run (test >>= fun _ => Pure.pure []) [] := by
    cases bound with
    | nil => rfl
    | cons u bound => exact run_round_nil _ ht.looks
  rw [Quiet, hnil, run_bind]
  rcases htest : run test [] with ⟨e | b, rest⟩
  · rintro ⟨nest, token, rest', he⟩
    simp only [Prod.mk.injEq, Except.error.injEq] at he
    exact ht.quiet ⟨nest, token, rest, by rw [htest, he.1]⟩
  · exact not_stopsTooDeep_ok

theorem Quiet.many {test : Parser Bool} (ht : Tests test) (item : Parser α) :
    Quiet (many test item) :=
  Quiet.manyUpTo ht item []

theorem Steady.manyUpTo {test : Parser Bool} {item : Parser α} (ht : Tests test)
    (hi : Steady item) (bound : List Token) : Steady (Parser.manyUpTo test item bound) := by
  induction bound with
  | nil => exact ht.bind _ (fun _ => Steady.pure []) (Quiet.pure [])
  | cons u bound ih =>
    refine ht.bind _ (fun b => ?_) (.pure [])
    cases b with
    | false => exact .pure []
    | true => exact hi.bind (fun a => ih.map _) fun a => (Quiet.manyUpTo ht item bound).map _

/-- Parsers that agree with steady ones on tokens of any given length are steady. -/
theorem Steady.of_bounded {p : Parser α} {q : List Token → Parser α}
    (hq : ∀ bound, Steady (q bound))
    (h : ∀ {ts bound : List Token}, ts.length ≤ bound.length → run p ts = run (q bound) ts) :
    Steady p where
  trims ts := by
    rw [h (Nat.le_refl _)]
    exact (hq ts).trims ts
  at_tokens u := by
    constructor
    · intro x r res hrun hs x'
      have hx : (u ++ x).length ≤ (u ++ x ++ x').length := by simp
      have hx' : (u ++ x').length ≤ (u ++ x ++ x').length := by simp
      rw [h hx] at hrun
      rw [h hx']
      exact ((hq _).at_tokens u).exchange hrun hs x'
    · intro hd x
      have hu : u.length ≤ (u ++ x).length := by simp
      rw [h hu] at hd
      rw [h (Nat.le_refl _)]
      exact ((hq _).at_tokens u).deep hd x

theorem Steady.many {test : Parser Bool} {item : Parser α} (ht : Tests test) (hi : Steady item)
    (hp : Progresses item) : Steady (many test item) :=
  of_bounded (Steady.manyUpTo ht hi) fun h => run_manyUpTo_eq ht.looks hp (Nat.le_refl _) h

theorem Quiet.extend {table : Kind → Option β} {operand : Parser α} {join : β → Token → α → α → α}
    (lhs : α) : Quiet (extend table operand join lhs) :=
  not_stopsTooDeep_ok

theorem Steady.extend {table : Kind → Option β} {operand : Parser α}
    {join : β → Token → α → α → α} (ho : Steady operand) (hp : Progresses operand) (lhs : α) :
    Steady (extend table operand join lhs) := by
  have hstep : ∀ (bound : List Token) (lhs : α),
      Quiet (extendUpTo table operand join bound lhs) ∧
        Steady (extendUpTo table operand join bound lhs) := by
    intro bound
    induction bound with
    | nil => exact fun lhs => ⟨.pure lhs, .pure lhs⟩
    | cons u bound ih =>
      exact fun lhs => ⟨.accept?_bind (.pure lhs), .accept?_bind (.pure lhs) (.pure lhs) fun op =>
        ho.bind (fun a => (ih _).2) fun a => (ih _).1⟩
  exact of_bounded (fun bound => (hstep bound lhs).2) fun h =>
    run_extendUpTo_eq hp (Nat.le_refl _) h

theorem Steady.chain {table : Kind → Option β} {operand : Parser α}
    {join : β → Token → α → α → α} (ho : Steady operand) (hp : Progresses operand) :
    Steady (chain table operand join) :=
  ho.bind (fun lhs => .extend ho hp lhs) fun lhs => Quiet.extend lhs

structure SteadyInner (inner : Nested) : Prop where
  statement : Steady inner.statement
  assignment : Steady inner.assignment
  unary : Steady inner.unary
  power : Steady inner.power
  grips : Grips inner.assignment

theorem steady_integer : Steady integer := by
  refine .enter_bind (.literal_bind ?_ fun t => ?_)
  · exact (integer_sound : Sound 0 integer _).trims
  · cases hv : Numeral.readInteger? t.lexeme.toList with
    | some v => exact .inl ⟨⟨v, t⟩, rfl⟩
    | none => exact .inr ⟨.integerRange t.lexeme, rfl, rfl⟩

theorem steady_float : Steady Parser.float := by
  refine .enter_bind (.literal_bind ?_ fun t => ?_)
  · exact (float_sound : Sound 0 Parser.float _).trims
  · cases hv : Numeral.Binary64.read? t.lexeme.toList with
    | some x => exact .inl ⟨.float x t, rfl⟩
    | none => exact .inr ⟨.malformedFloat t.lexeme, rfl, rfl⟩

theorem steady_string : Steady Parser.string :=
  .enter_bind (.expect_bind fun _ => .pure _)

section

variable {room : Nat} (h : SteadyInner (.within room))

include h

theorem steady_expression : Steady (Parser.expression (.within room)) :=
  .enter_bind h.assignment

theorem steady_index : Steady (index (.within room)) :=
  .enter_bind <| .expect_bind fun _ => .expect_bind fun _ =>
    (steady_expression h).bind (fun _ => .require_bind fun _ => .pure _) fun _ => .take_bind

theorem steady_furtherArgument : Steady (furtherArgument (.within room)) :=
  .expect_bind fun _ => steady_expression h

theorem steady_arguments : Steady (Parser.arguments (.within room)) := by
  refine .current_bind fun k => ?_
  split
  · exact Steady.pure []
  · refine (steady_expression h).bind (fun e => ?_) fun e => ?_
    · refine (Steady.many tests_atComma (steady_furtherArgument h) ?_).bind (fun _ => .pure _)
        fun _ => .pure _
      exact Phrase.Parsed.furtherArgument_progresses room
    · exact (Quiet.many tests_atComma (furtherArgument (.within room))).bind_pure (e :: ·)

theorem steady_call : Steady (call (.within room)) :=
  .enter_bind <| .expect_bind fun _ => .expect_bind fun _ =>
    (steady_arguments h).bind (fun _ => .require_bind fun _ => .pure _) fun _ => .take_bind

theorem grips_call : Grips (call (.within room)) :=
  .enter_bind <| .expect_bind fun _ => (Steady.expect_bind fun _ => (steady_arguments h).bind
    (fun _ => .require_bind fun _ => .pure _) fun _ => .take_bind).trims

theorem grips_index : Grips (index (.within room)) :=
  .enter_bind <| .expect_bind fun _ => (Steady.expect_bind fun _ => (steady_expression h).bind
    (fun _ => .require_bind fun _ => .pure _) fun _ => .take_bind).trims

omit h in
theorem run_named_of_ne {t : Token} (ht : t.kind ≠ .identifier) (rest : List Token) :
    run (named (.within room)) (t :: rest) =
      run (expect .identifier >>= fun t => pure (Expr.var t)) (t :: rest) := by
  have hfail : ∀ f : Token → Parser Expr, run (expect .identifier >>= f) (t :: rest) =
      (.error ⟨.mismatch .identifier t.kind, some t⟩, t :: rest) := fun f =>
    run_bind_of_error f (run_take_of_ne rest _ ht)
  rw [named, run_following?_bind, hfail]
  split
  · rw [index, run_enter_bind, hfail]
  · rw [call, run_enter_bind, hfail]
  · rw [run_map, hfail]

theorem grips_named : Grips (named (.within room)) := by
  intro t x ht
  rw [named, run_following?_bind]
  split
  · exact grips_index h t x ht
  · exact grips_call h t x ht
  · rw [run_map]
    exact Grips.expect_bind (fun t => .pure (Expr.var t)) t x ht

theorem steady_named : Steady (named (.within room)) := by
  have hvar : Steady (expect .identifier >>= fun t => pure (Expr.var t)) :=
    .expect_bind fun _ => .pure _
  refine .of_name (named_sound (inner_within room)).trims ?_ (grips_named h) ?_ ?_ ?_
  · exact not_stopsTooDeep_error (by decide)
  · intro t ht
    rw [named, run_following?_bind]
    simp only [List.getElem?_cons_succ, List.getElem?_nil, Option.map_none]
    rw [run_map, run_expect_bind _ ht]
    exact not_stopsTooDeep_ok
  · intro t u _
    simp only [named, run_following?_bind, List.getElem?_cons_succ, List.getElem?_cons_zero,
      Option.map_some]
    split
    · exact ⟨_, steady_index h, fun _ => rfl⟩
    · exact ⟨_, steady_call h, fun _ => rfl⟩
    · exact ⟨_, (Steady.expect .identifier).map _, fun _ => rfl⟩
  · exact fun t ht => ⟨_, hvar, run_named_of_ne ht⟩

theorem steady_parenthesized : Steady (parenthesized (.within room)) :=
  .expect_bind fun _ => (steady_expression h).bind (fun _ => .require_bind fun _ => .pure _)
    fun _ => .take_bind

theorem steady_atom : Steady (atom (.within room)) := by
  refine .enter_bind (.current_bind fun k => ?_)
  split
  · exact steady_integer.map _
  · exact steady_float
  · exact steady_string
  · exact steady_named h
  · exact steady_parenthesized h
  · exact .fail rfl

theorem steady_power : Steady (power (.within room)) :=
  .enter_bind <| (steady_atom h).bind
    (fun lhs => .accept?_bind (.pure lhs) (.pure lhs) fun _ => h.power.map _)
    fun lhs => .accept?_bind (.pure lhs)

omit h in
theorem quiet_power (inner : Nested) : Quiet (power inner) :=
  not_stopsTooDeep_error (by decide)

theorem steady_unary : Steady (unary (.within room)) :=
  .enter_bind <| .accept?_bind (steady_power h) (quiet_power (.within room)) fun _ => h.unary.map _

theorem steady_product : Steady (product (.within room)) :=
  .enter_bind <| .chain (steady_unary h) (Rung.unary.parser_progresses (inner_within room))

theorem steady_sum : Steady (sum (.within room)) :=
  .enter_bind <| .chain (steady_product h) (Rung.product.parser_progresses (inner_within room))

theorem steady_comparison : Steady (comparison (.within room)) :=
  .enter_bind <| .chain (steady_sum h) (Rung.sum.parser_progresses (inner_within room))

theorem steady_equality : Steady (equality (.within room)) :=
  .enter_bind <| .chain (steady_comparison h)
    (Rung.comparison.parser_progresses (inner_within room))

theorem steady_assignment : Steady (assignment (.within room)) :=
  .enter_bind <| (steady_equality h).bind
    (fun lhs => .accept?_bind (.pure lhs) (.pure lhs) fun _ => h.assignment.map _)
    fun lhs => .accept?_bind (.pure lhs)

theorem grips_atom : Grips (atom (.within room)) :=
  .enter_bind (.current_bind (grips_named h))

theorem grips_power : Grips (power (.within room)) :=
  .enter_bind <| (grips_atom h).bind fun lhs =>
    (Steady.accept?_bind (.pure lhs) (.pure lhs) fun _ => h.power.map _).trims

theorem grips_unary : Grips (unary (.within room)) :=
  .enter_bind (.accept?_bind rfl (grips_power h))

theorem grips_product : Grips (product (.within room)) :=
  .enter_bind <| (grips_unary h).bind fun lhs =>
    (Steady.extend (steady_unary h) (Rung.unary.parser_progresses (inner_within room)) lhs).trims

theorem grips_sum : Grips (sum (.within room)) :=
  .enter_bind <| (grips_product h).bind fun lhs =>
    (Steady.extend (steady_product h) (Rung.product.parser_progresses (inner_within room))
      lhs).trims

theorem grips_comparison : Grips (comparison (.within room)) :=
  .enter_bind <| (grips_sum h).bind fun lhs =>
    (Steady.extend (steady_sum h) (Rung.sum.parser_progresses (inner_within room)) lhs).trims

theorem grips_equality : Grips (equality (.within room)) :=
  .enter_bind <| (grips_comparison h).bind fun lhs =>
    (Steady.extend (steady_comparison h)
      (Rung.comparison.parser_progresses (inner_within room)) lhs).trims

theorem grips_assignment : Grips (assignment (.within room)) :=
  .enter_bind <| (grips_equality h).bind fun lhs =>
    (Steady.accept?_bind (.pure lhs) (.pure lhs) fun _ => h.assignment.map _).trims

theorem grips_expressionStatement : Grips (expressionStatement (.within room)) :=
  .enter_bind <| (Grips.enter_bind h.grips).bind fun _ =>
    (Steady.require_bind fun _ => .pure _).trims

theorem firm_expressionStatement : Firm (expressionStatement (.within room)) :=
  .enter_bind <| .bind_require (steady_expression h) fun _ _ => .pure _

omit h in
theorem Firm.steady {p : Parser α} (hp : Firm p) : Steady p :=
  (hp Pure.pure Steady.pure).congr fun ts => (run_bind_pure p ts).symm

theorem steady_initializer? : Steady (initializer? (.within room)) := by
  refine .current_bind fun k => ?_
  split
  · exact .expect_bind fun _ => (steady_expression h).map _
  · exact .pure none

theorem firm_variableEnd (type name : Token) : Firm (variableEnd (.within room) type name) :=
  .bind_require (steady_initializer? h) fun _ _ => .pure _

omit h in
theorem steady_arrayEnd (type name : Token) : Steady (arrayEnd type name) :=
  .expect_bind fun _ => steady_integer.bind (fun _ => .require_bind fun _ => .require_bind fun _ =>
    .pure _) fun _ => .take_bind

theorem steady_declaration : Steady (declaration (.within room)) := by
  refine .enter_bind <| .expect_bind fun type => .expect_bind fun name => .current_bind fun k => ?_
  split
  · exact steady_arrayEnd type name
  · exact (firm_variableEnd h type name).steady

theorem grips_declaration : Grips (declaration (.within room)) := by
  refine .enter_bind <| .expect_bind fun type => (Steady.expect_bind fun name =>
    .current_bind fun k => ?_).trims
  split
  · exact steady_arrayEnd type name
  · exact (firm_variableEnd h type name).steady

theorem firm_variableStart : Firm (variableStart (.within room)) :=
  .expect_bind fun type => .expect_bind fun name => firm_variableEnd h type name

omit h in
theorem firm_emptyStatement : Firm emptyStatement :=
  .expect_bind fun _ => .pure _

def plainStart (inner : Nested) : Parser Stmt := do
  if (← current) = .semicolon then emptyStatement else expressionStatement inner

omit h in
theorem run_forStart_of_names {t u : Token} (ht : t.kind = .identifier) (hu : u.kind = .identifier)
    (x : List Token) : run (forStart (.within room)) (t :: u :: x) =
      run (variableStart (.within room)) (t :: u :: x) := by
  rw [forStart, run_enter_bind, run_atDeclaration_bind_two _ ht, if_pos (decide_eq_true hu)]

omit h in
theorem run_forStart_of_name {t u : Token} (ht : t.kind = .identifier) (hu : u.kind ≠ .identifier)
    (x : List Token) : run (forStart (.within room)) (t :: u :: x) =
      run (plainStart (.within room)) (t :: u :: x) := by
  rw [forStart, run_enter_bind, run_atDeclaration_bind_two _ ht, if_neg (by simp [hu])]
  rfl

omit h in
theorem run_forStart_of_ne {t : Token} (ht : t.kind ≠ .identifier) (x : List Token) :
    run (forStart (.within room)) (t :: x) = run (plainStart (.within room)) (t :: x) := by
  rw [forStart, run_enter_bind, run_atDeclaration_bind_of_ne _ ht, if_neg Bool.false_ne_true]
  rfl

omit h in
theorem run_forStart_one {t : Token} (ht : t.kind = .identifier) :
    run (forStart (.within room)) [t] = (.error ⟨.endOfInput, some t⟩, [t]) := by
  rw [forStart, run_enter_bind, run_atDeclaration_bind_one _ ht]

theorem steady_plainStart_bind {f : Stmt → Parser α} (hf : ∀ s, Steady (f s)) :
    Steady (plainStart (.within room) >>= f) := by
  refine (Steady.current_bind fun k => ?_ : Steady (current >>= fun k =>
    (if k = .semicolon then emptyStatement else expressionStatement (.within room)) >>= f)).congr
      (run_bind_assoc _ _ f)
  split
  · exact firm_emptyStatement f hf
  · exact firm_expressionStatement h f hf

theorem grips_forStart : Grips (forStart (.within room)) := by
  intro t x ht
  rcases x with _ | ⟨u, x⟩
  · rw [run_forStart_one ht]
    exact .inr ⟨_, rfl, .inl rfl⟩
  · by_cases hu : u.kind = .identifier
    · rw [run_forStart_of_names ht hu]
      exact Grips.expect_bind (fun type => (Steady.expect_bind fun name =>
        (firm_variableEnd h type name).steady).trims) t (u :: x) ht
    · rw [run_forStart_of_name ht hu, plainStart, run_current_cons_bind, if_neg (by simp [ht])]
      exact grips_expressionStatement h t (u :: x) ht

theorem firm_forStart : Firm (forStart (.within room)) := by
  intro γ f hf
  have htrims : Trims (forStart (.within room)) := (forStart_sound (inner_within room)).trims
  have hplain : ∀ ts, run (forStart (.within room)) ts = run (plainStart (.within room)) ts →
      run (forStart (.within room) >>= f) ts = run (plainStart (.within room) >>= f) ts :=
    fun ts hts => run_bind_congr hts f
  refine .of_name (htrims.bind fun s => (hf s).trims) ?_
    ((grips_forStart h).bind fun s => (hf s).trims) ?_ ?_ ?_
  · exact not_stopsTooDeep_error (by decide)
  · intro t ht
    rw [run_bind_of_error f (run_forStart_one ht)]
    exact not_stopsTooDeep_error (by simp [Cause.site])
  · intro t u ht
    by_cases hu : u.kind = .identifier
    · exact ⟨_, firm_variableStart h f hf, fun x =>
        run_bind_congr (run_forStart_of_names ht hu x) f⟩
    · exact ⟨_, steady_plainStart_bind h hf, fun x => hplain _ (run_forStart_of_name ht hu x)⟩
  · exact fun t ht => ⟨_, steady_plainStart_bind h hf, fun x => hplain _ (run_forStart_of_ne ht x)⟩

theorem steady_statement : Steady (statement (.within room)) :=
  .enter_bind h.statement

theorem steady_forLoop : Steady (forLoop (.within room)) :=
  .enter_bind <| .expect_bind fun _ => .require_bind fun _ => firm_forStart h _ fun _ =>
    (steady_expression h).bind (fun _ => .require_bind fun _ => (steady_expression h).bind
      (fun _ => .require_bind fun _ =>
        (steady_statement h).bind (fun _ => .pure _) fun _ => .pure _)
      fun _ => .take_bind) fun _ => .take_bind

theorem firm_condition (word closed : Place) : Firm (condition (.within room) word closed) :=
  .require_bind fun _ => .bind_require (steady_expression h) fun _ _ => .pure _

theorem steady_whileLoop : Steady (whileLoop (.within room)) :=
  .enter_bind <| .expect_bind fun _ => firm_condition h _ _ _ fun _ => (steady_statement h).map _

theorem steady_conditional : Steady (conditional (.within room)) := by
  refine .enter_bind <| .expect_bind fun _ => firm_condition h _ _ _ fun e =>
    (steady_statement h).bind (fun s => .current?_bind (fun k => ?_) (.pure (Stmt.ifThen e s)))
      fun s => .current?_bind (.pure (Stmt.ifThen e s))
  split
  · exact .expect_bind fun _ => (steady_statement h).map _
  · exact .pure (Stmt.ifThen e s)

theorem steady_returned? : Steady (returned? (.within room)) := by
  refine .current_bind fun k => ?_
  split
  · exact .pure none
  · exact (steady_expression h).map _

theorem steady_result : Steady (Parser.result (.within room)) :=
  .enter_bind <| .expect_bind fun _ => (steady_returned? h).bind
    (fun _ => .require_bind fun _ => .pure _) fun _ => .take_bind

theorem steady_block : Steady (Parser.block (.within room)) :=
  .enter_bind <| .expect_bind fun _ =>
    (Steady.many tests_insideBlock (steady_statement h)
      (Phrase.Parsed.statement_progresses room)).bind (fun _ => .expect_bind fun _ => .pure _)
      fun _ => .take_bind

theorem steady_dispatch : Steady (dispatch (.within room)) := by
  have hone : ∀ t, t.kind = .identifier →
      run (dispatch (.within room)) [t] = (.error ⟨.endOfInput, some t⟩, [t]) := by
    intro t ht
    rw [dispatch, run_current_cons_bind, ht]
    rfl
  have hname : ∀ t u x, t.kind = .identifier → u.kind ≠ .identifier →
      run (dispatch (.within room)) (t :: u :: x) =
        run (expressionStatement (.within room)) (t :: u :: x) := by
    intro t u x ht hu
    rw [dispatch, run_current_cons_bind, ht]
    simp only []
    rw [run_following_cons_bind, if_neg hu]
  refine .of_name (dispatch_sound (inner_within room)).trims ?_ ?_ ?_ ?_ ?_
  · exact not_stopsTooDeep_error (by decide)
  · intro t x ht
    rcases x with _ | ⟨u, x⟩
    · rw [hone t ht]
      exact .inr ⟨_, rfl, .inl rfl⟩
    · by_cases hu : u.kind = .identifier
      · rw [run_dispatch_of_names x ht hu]
        exact grips_declaration h t (u :: x) ht
      · rw [hname t u x ht hu]
        exact grips_expressionStatement h t (u :: x) ht
  · intro t ht
    rw [hone t ht]
    exact not_stopsTooDeep_error (by simp [Cause.site])
  · intro t u ht
    by_cases hu : u.kind = .identifier
    · exact ⟨_, steady_declaration h, fun x => run_dispatch_of_names x ht hu⟩
    · exact ⟨_, (firm_expressionStatement h).steady, fun x => hname t u x ht hu⟩
  · intro t ht
    refine ⟨_, ?_, run_current_cons_bind _ t⟩
    split
    · next hk => exact absurd hk ht
    · exact (steady_block h).map _
    · exact firm_emptyStatement.steady
    · exact steady_forLoop h
    · exact steady_whileLoop h
    · exact steady_conditional h
    · exact steady_result h
    · exact (firm_expressionStatement h).steady

omit h in
theorem steady_param : Steady param :=
  .expect_bind fun _ => .expect_bind fun _ => .pure _

omit h in
theorem steady_paramList : Steady paramList := by
  have hmore : Steady (many atComma furtherParam) :=
    .many tests_atComma (.expect_bind fun _ => steady_param) Phrase.Parsed.furtherParam_progresses
  refine .current_bind fun k => ?_
  split
  · exact Steady.pure []
  · exact .enter_bind <| steady_param.bind (fun p => hmore.bind (fun _ => .pure _) fun _ => .pure _)
      fun p => (Quiet.many tests_atComma furtherParam).bind_pure (p :: ·)

theorem steady_function : Steady (Parser.function (.within room)) :=
  .enter_bind <| .expect_bind fun _ => .expect_bind fun _ => .expect_bind fun _ =>
    steady_paramList.bind (fun _ => .expect_bind fun _ => (steady_block h).bind (fun _ => .pure _)
      fun _ => .pure _) fun _ => .take_bind

theorem steady_program : Steady (Parser.program (.within room)) :=
  .enter_bind <| (Steady.many tests_moreTokens (steady_function h)
    (Phrase.Parsed.function_progresses room)).bind (fun _ => .pure _) fun _ => .pure _

end

/-- However many levels may still be opened, the parsers one level down are steady. -/
theorem steadyInner_within (room : Nat) : SteadyInner (.within room) := by
  induction room with
  | zero => exact ⟨.tooDeep _, .tooDeep _, .tooDeep _, .tooDeep _, .tooDeep _⟩
  | succ room ih =>
    exact ⟨(steady_dispatch ih).deeper, (steady_assignment ih).deeper, (steady_unary ih).deeper,
      (steady_power ih).deeper, (grips_assignment ih).deeper⟩

end BraceLang.Grammar
