import BraceLang.Proofs.Layout
import BraceLang.Proofs.TwoAhead

/-!
# Errors do not depend on tokens further on

Every production looks at two tokens at most, one lemma for each from the parts that it is made of.
Expressions complain about the end of the tokens only where it is, so they are sighted with no token
to spare. A statement and the start of a loop look behind a name, which may be the last token.

So the first error of a program, and where the parser stops, are settled by the tokens up to the one
behind the token that it stops at.
-/

namespace BraceLang.Grammar

open BraceLang.Grammar.Parser

variable {spare room : Nat}

/-- The parsers one level of nesting down are sighted. For a statement a token is to spare. -/
structure SightedInner (spare : Nat) (inner : Nested) : Prop where
  statement : 1 ≤ spare → Sighted 1 inner.statement
  assignment : Sighted spare inner.assignment
  unary : Sighted spare inner.unary
  power : Sighted spare inner.power

theorem sighted_integer : Sighted spare integer := by
  refine .enter_bind <| .expect_bind fun t => ?_
  split
  · exact .pure _
  · exact .failAt t nofun

theorem sighted_float : Sighted spare Parser.float := by
  refine .enter_bind <| .expect_bind fun t => ?_
  split
  · exact .pure _
  · exact .failAt t nofun

theorem sighted_string : Sighted spare Parser.string :=
  .enter_bind <| .expect_bind fun _ => .pure _

theorem sighted_atComma : Sighted spare atComma :=
  .current_bind fun _ => .pure _

section

variable (h : SightedInner spare (.within room))

include h

theorem sighted_expression : Sighted spare (Parser.expression (.within room)) :=
  .enter_bind h.assignment

theorem sighted_index : Sighted spare (index (.within room)) :=
  .enter_bind <| .expect_bind fun _ => .expect_bind fun _ =>
    (sighted_expression h).bind fun _ => .require_bind fun _ => .pure _

theorem sighted_arguments : Sighted spare (Parser.arguments (.within room)) := by
  have hfurther : Sighted spare (furtherArgument (.within room)) :=
    .expect_bind fun _ => sighted_expression h
  refine .current_bind fun k => ?_
  split
  · exact .pure _
  · exact (sighted_expression h).bind fun _ => (Sighted.many looks_atComma sighted_atComma hfurther
      (Phrase.Parsed.furtherArgument_progresses room)).bind fun _ => .pure _

theorem sighted_call : Sighted spare (call (.within room)) :=
  .enter_bind <| .expect_bind fun _ => .expect_bind fun _ =>
    (sighted_arguments h).bind fun _ => .require_bind fun _ => .pure _

theorem sighted_named : Sighted spare (named (.within room)) := by
  refine .following?_bind fun k => ?_
  split
  · exact sighted_index h
  · exact sighted_call h
  · exact (Sighted.expect .identifier).map _

theorem sighted_parenthesized : Sighted spare (parenthesized (.within room)) :=
  .expect_bind fun _ => (sighted_expression h).bind fun _ => .require_bind fun _ => .pure _

theorem sighted_atom : Sighted spare (atom (.within room)) := by
  refine .enter_bind <| .current_bind fun k => ?_
  split
  · exact sighted_integer.map _
  · exact sighted_float
  · exact sighted_string
  · exact sighted_named h
  · exact sighted_parenthesized h
  · exact .fail nofun

theorem sighted_power : Sighted spare (power (.within room)) :=
  .enter_bind <| (sighted_atom h).bind fun _ => .accept?_bind (.pure _) fun _ => h.power.map _

theorem sighted_unary : Sighted spare (unary (.within room)) :=
  .enter_bind <| .accept?_bind (sighted_power h) fun _ => h.unary.map _

theorem sighted_product : Sighted spare (product (.within room)) :=
  .enter_bind <| .chain (sighted_unary h) (Rung.unary.parser_progresses (inner_within room))

theorem sighted_sum : Sighted spare (sum (.within room)) :=
  .enter_bind <| .chain (sighted_product h) (Rung.product.parser_progresses (inner_within room))

theorem sighted_comparison : Sighted spare (comparison (.within room)) :=
  .enter_bind <| .chain (sighted_sum h) (Rung.sum.parser_progresses (inner_within room))

theorem sighted_equality : Sighted spare (equality (.within room)) :=
  .enter_bind <| .chain (sighted_comparison h)
    (Rung.comparison.parser_progresses (inner_within room))

theorem sighted_assignment : Sighted spare (assignment (.within room)) :=
  .enter_bind <| (sighted_equality h).bind fun _ =>
    .accept?_bind (.pure _) fun _ => h.assignment.map _

theorem sighted_wholeExpression : Sighted spare (wholeExpression (.within room)) := by
  refine (sighted_expression h).bind fun e ts => ?_
  cases ts with
  | nil => exact .nil rfl (by rintro _ ⟨⟩)
  | cons t rest =>
    exact .of_cons (q := Parser.fail (.trailing t)) (fun _ => rfl)
      ((.fail nofun : Sighted spare (Parser.fail (.trailing t))) (t :: rest))

end

section

variable (h : SightedInner 1 (.within room))

include h

theorem sighted_statement : Sighted 1 (Parser.statement (.within room)) :=
  .enter_bind (h.statement (Nat.le_refl 1))

theorem sighted_expressionStatement : Sighted 1 (expressionStatement (.within room)) :=
  .enter_bind <| (sighted_expression h).bind fun _ => .require_bind fun _ => .pure _

theorem sighted_initializer? : Sighted 1 (initializer? (.within room)) := by
  refine .current_bind fun k => ?_
  split
  · exact .expect_bind fun _ => (sighted_expression h).map _
  · exact .pure _

theorem sighted_variableEnd (type name : Token) :
    Sighted 1 (variableEnd (.within room) type name) :=
  (sighted_initializer? h).bind fun _ => .require_bind fun _ => .pure _

omit h in
theorem sighted_arrayEnd (type name : Token) : Sighted 1 (arrayEnd type name) :=
  .expect_bind fun _ => sighted_integer.bind fun _ => .require_bind fun _ =>
    .require_bind fun _ => .pure _

theorem sighted_declaration : Sighted 1 (declaration (.within room)) := by
  refine .enter_bind <| .expect_bind fun type => .expect_bind fun name => .current_bind fun k => ?_
  split
  · exact sighted_arrayEnd type name
  · exact sighted_variableEnd h type name

theorem sighted_variableStart : Sighted 1 (variableStart (.within room)) :=
  .expect_bind fun type => .expect_bind fun name => sighted_variableEnd h type name

omit h in
theorem sighted_emptyStatement : Sighted 1 emptyStatement :=
  .expect_bind fun _ => .pure _

omit h in
theorem sighted_atDeclaration : Sighted 1 atDeclaration := by
  refine .current_bind_at fun t rest => ?_
  split
  · next ht => exact Sighted.following_bind_at ht rest fun _ => .pure _
  · exact Sighted.pure _ _

theorem sighted_forStart : Sighted 1 (forStart (.within room)) := by
  refine .enter_bind <| sighted_atDeclaration.bind fun b => ?_
  split
  · exact sighted_variableStart h
  · refine .current_bind fun k => ?_
    split
    · exact sighted_emptyStatement
    · exact sighted_expressionStatement h

theorem sighted_forLoop : Sighted 1 (forLoop (.within room)) :=
  .enter_bind <| .expect_bind fun _ => .require_bind fun _ => (sighted_forStart h).bind fun _ =>
    (sighted_expression h).bind fun _ => .require_bind fun _ => (sighted_expression h).bind fun _ =>
      .require_bind fun _ => (sighted_statement h).bind fun _ => .pure _

theorem sighted_condition (word closed : Place) :
    Sighted 1 (condition (.within room) word closed) :=
  .require_bind fun _ => (sighted_expression h).bind fun _ => .require_bind fun _ => .pure _

theorem sighted_whileLoop : Sighted 1 (whileLoop (.within room)) :=
  .enter_bind <| .expect_bind fun _ => (sighted_condition h _ _).bind fun _ =>
    (sighted_statement h).map _

theorem sighted_conditional : Sighted 1 (conditional (.within room)) := by
  refine .enter_bind <| .expect_bind fun _ => (sighted_condition h _ _).bind fun _ =>
    (sighted_statement h).bind fun _ => .current?_bind fun k => ?_
  split
  · exact .expect_bind fun _ => (sighted_statement h).map _
  · exact .pure _

theorem sighted_returned? : Sighted 1 (returned? (.within room)) := by
  refine .current_bind fun k => ?_
  split
  · exact .pure _
  · exact (sighted_expression h).map _

theorem sighted_result : Sighted 1 (Parser.result (.within room)) :=
  .enter_bind <| .expect_bind fun _ => (sighted_returned? h).bind fun _ =>
    .require_bind fun _ => .pure _

theorem sighted_block : Sighted 1 (Parser.block (.within room)) := by
  have hinside : Sighted 1 insideBlock := .current_bind fun _ => .pure _
  exact .enter_bind <| .expect_bind fun _ => (Sighted.many looks_insideBlock hinside
    (sighted_statement h) (Phrase.Parsed.statement_progresses room)).bind fun _ =>
      .expect_bind fun _ => .pure _

theorem sighted_dispatch : Sighted 1 (dispatch (.within room)) := by
  refine .current_bind_at fun t rest => ?_
  split
  · next ht =>
    refine Sighted.following_bind_at ht rest fun k => ?_
    split
    · exact sighted_declaration h
    · exact sighted_expressionStatement h
  · exact (sighted_block h).map _ _
  · exact sighted_emptyStatement _
  · exact sighted_forLoop h _
  · exact sighted_whileLoop h _
  · exact sighted_conditional h _
  · exact sighted_result h _
  · exact sighted_expressionStatement h _

omit h in
theorem sighted_param : Sighted 1 param :=
  .expect_bind fun _ => .expect_bind fun _ => .pure _

omit h in
theorem sighted_paramList : Sighted 1 paramList := by
  have hfurther : Sighted 1 furtherParam := .expect_bind fun _ => sighted_param
  refine .current_bind fun k => ?_
  split
  · exact .pure _
  · exact .enter_bind <| sighted_param.bind fun _ => (Sighted.many looks_atComma sighted_atComma
      hfurther Phrase.Parsed.furtherParam_progresses).bind fun _ => .pure _

theorem sighted_function : Sighted 1 (Parser.function (.within room)) :=
  .enter_bind <| .expect_bind fun _ => .expect_bind fun _ => .expect_bind fun _ =>
    sighted_paramList.bind fun _ => .expect_bind fun _ => (sighted_block h).bind fun _ => .pure _

theorem sighted_program : Sighted 1 (Parser.program (.within room)) := by
  have hmore : Sighted 1 moreTokens := .current?_bind fun _ => .pure _
  exact .enter_bind <| (Sighted.many looks_moreTokens hmore (sighted_function h)
    (Phrase.Parsed.function_progresses room)).bind fun _ => .pure _

end

/-- However many levels may still be opened, the parsers one level down are sighted. -/
theorem sightedInner_within (hspare : spare ≤ 1) (room : Nat) :
    SightedInner spare (.within room) := by
  induction room generalizing spare with
  | zero => exact ⟨fun _ => .fail nofun, .fail nofun, .fail nofun, .fail nofun⟩
  | succ room ih =>
    have h := ih hspare
    exact ⟨fun _ => (sighted_dispatch (ih (Nat.le_refl 1))).deeper,
      (sighted_assignment h).deeper, (sighted_unary h).deeper, (sighted_power h).deeper⟩

theorem sighted_programParser (limit : Nat) : Sighted 1 (programParser limit) :=
  sighted_program (sightedInner_within (Nat.le_refl 1) limit)

/-- Where two tokens are left, tokens that agree with these up to the second of the two give the
same error, and the parser stops as far from their start. -/
theorem Sighted.answer_of_seen {α : Type} {p : Parser α} (hp : Sighted spare p)
    {ts us : List Token} {e : SyntaxError} (h : (p ts).answer ts = .error e)
    (hseen : us.take (ts.length - (p ts).rest.length + 2) =
      ts.take (ts.length - (p ts).rest.length + 2))
    (hlong : ts.length - (p ts).rest.length + 2 ≤ ts.length) :
    (p us).answer us = .error e ∧
      us.length - (p us).rest.length = ts.length - (p ts).rest.length := by
  obtain ⟨failure, hrun, rfl⟩ := run_of_answer_error h
  obtain ⟨c, hc⟩ := (hp ts).suffix
  have hrest : (p ts).rest = (run p ts).2 := rfl
  rw [hrest] at hseen hlong ⊢
  rw [hrun] at hc hseen hlong ⊢
  generalize (p ts).rest = rest at hrun hc hseen hlong ⊢
  subst hc
  have hposition : (c ++ rest).length - rest.length = c.length := by simp
  rw [hposition] at hseen hlong ⊢
  match rest, (by simpa using hlong : 2 ≤ rest.length) with
  | t :: t' :: x, _ =>
    have hsplit : c ++ t :: t' :: x = c ++ [t, t'] ++ x := by simp
    have htake : (c ++ t :: t' :: x).take (c.length + 2) = c ++ [t, t'] := by
      rw [hsplit]
      exact List.take_left' (by simp)
    obtain ⟨x', rfl⟩ : ∃ x', us = c ++ [t, t'] ++ x' :=
      ⟨us.drop (c.length + 2), by rw [← htake, ← hseen, List.take_append_drop]⟩
    have hagain : run p (c ++ [t, t'] ++ x') = (.error failure, [t, t'] ++ x') :=
      (hp _).ahead (r := [t, t']) hsplit hrun (Nat.le_refl 2) x'
    have hpointed := ((hp _).stops hrun).pointed
    constructor
    · rw [answer_of_run_error hagain]
      cases htoken : failure.token with
      | none => exact absurd (hpointed htoken) (List.cons_ne_nil _ _)
      | some t => simp only [Failure.within, htoken, Option.map_some, Option.getD_some]
    · have hleft : (p (c ++ [t, t'] ++ x')).rest = [t, t'] ++ x' := congrArg Prod.snd hagain
      rw [hleft]
      simp

/-- The first error of a program is settled by the tokens before the one that the parser stops at,
this one and the next. If these stay the same, or all tokens where there are fewer of them, so do
the error with its message, its place and its token, and the number of tokens taken. -/
theorem parseProgram_error_of_seen {ts us : List Token} {e : SyntaxError}
    (h : parseProgram ts = .error e)
    (hseen : us.take ((Session.start ts).next.position + 2) =
      ts.take ((Session.start ts).next.position + 2))
    (hshort : ts.length < (Session.start ts).next.position + 2 → us = ts) :
    parseProgram us = .error e ∧
      (Session.start us).next.position = (Session.start ts).next.position := by
  by_cases hlong : (Session.start ts).next.position + 2 ≤ ts.length
  · exact (sighted_programParser maxNesting).answer_of_seen h hseen hlong
  · obtain rfl := hshort (Nat.lt_of_not_le hlong)
    exact ⟨h, rfl⟩

/-- Where nothing ends a statement the brace is the error. It stays the error whatever comes behind
the semicolon that follows it. -/
theorem parseProgram_error_of_seen_unended : ∃ e, e.message = "Expected ';' after expression" ∧
    parseProgram (unended ++ [.semicolon, .caret].map someToken) = .error e ∧
    (Session.start (unended ++ [.semicolon, .caret].map someToken)).next.position = 6 := by
  have hposition : (Session.start (unended ++ [.semicolon, .slash, .comma].map
      someToken)).next.position = 6 := rfl
  refine ⟨⟨.missing .semicolon .expression, .origin, some (someToken .rightBrace)⟩, rfl, ?_⟩
  rw [← hposition]
  exact parseProgram_error_of_seen rfl (by rw [hposition]; rfl)
    (by rw [hposition]; simp [unended])

end BraceLang.Grammar
