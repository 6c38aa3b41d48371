import BraceLang.Proofs.Run
import BraceLang.Proofs.Unplaced
import BraceLang.Grammar.Session

/-!
# Tokens at other places

A parser sees the kinds and the lexemes of tokens, and only hands their places on. So tokens can be
moved before they are parsed or after, with the same result (`Moves`). It also follows that an error
points at one of the tokens that were given: a parser cannot make up a place.

The two runs are followed through the grammar together, one rule for each combinator and one line
for each production; the induction is on the levels of nesting.
-/

namespace BraceLang.Grammar

open BraceLang.Grammar.Parser

structure Relocates (f : Token → Token) : Prop where
  kind : ∀ t, (f t).kind = t.kind
  lexeme : ∀ t, (f t).lexeme = t.lexeme

variable {α β γ δ : Type} {f : Token → Token}

def Cause.mapTokens (f : Token → Token) : Cause → Cause
  | .trailing t => .trailing (f t)
  | cause => cause

def Failure.mapTokens (f : Token → Token) (e : Failure) : Failure :=
  ⟨e.cause.mapTokens f, e.token.map f⟩

/-- The text of the cause is the same for all sources. -/
def Cause.Plain : Cause → Prop
  | .integerRange _ | .malformedFloat _ | .trailing _ | .other _ => False
  | _ => True

/-- What the cause quotes is the token that the failure points at. -/
def Failure.Quotes (e : Failure) : Prop :=
  match e.cause with
  | .integerRange lexeme | .malformedFloat lexeme => e.token.map Token.lexeme = some lexeme
  | .trailing t => e.token = some t
  | .other _ => False
  | _ => True

/-- What a cause quotes of a token is not its place. -/
theorem Cause.message_mapTokens (hf : Relocates f) (cause : Cause) :
    (cause.mapTokens f).message = cause.message := by
  cases cause with
  | trailing t =>
    have htext : (f t).text = t.text := by rw [Token.text, Token.text, hf.kind, hf.lexeme]
    exact congrArg (fun text => s!"Unexpected trailing token {text} after expression") htext
  | _ => rfl

theorem Cause.Plain.mapTokens {cause : Cause} (h : cause.Plain) : cause.mapTokens f = cause := by
  cases cause <;> first | rfl | exact h.elim

theorem Cause.Plain.quotes {cause : Cause} (h : cause.Plain) (token : Option Token) :
    Failure.Quotes ⟨cause, token⟩ := by
  cases cause <;> trivial

def moved (f : Token → Token) (m : α → β) :
    Except Failure α × List Token → Except Failure β × List Token
  | (.ok a, rest) => (.ok (m a), rest.map f)
  | (.error e, rest) => (.error (e.mapTokens f), rest.map f)

/-- On moved tokens `q` does what `p` does, with its value and its failure moved as well. -/
structure Moves (f : Token → Token) (m : α → β) (p : Parser α) (q : Parser β) : Prop where
  run_map : ∀ ts, run q (ts.map f) = moved f m (run p ts)
  quotes : ∀ {ts rest e}, run p ts = (.error e, rest) → e.Quotes

namespace Moves

variable {m : α → β} {m' : γ → δ}

theorem congr {p p' : Parser α} {q q' : Parser β} (h : Moves f m p q)
    (hp : ∀ ts, run p' ts = run p ts) (hq : ∀ ts, run q' ts = run q ts) : Moves f m p' q' where
  run_map ts := by rw [hp, hq, h.run_map]
  quotes hrun := h.quotes (hp _ ▸ hrun)

theorem pure (a : α) : Moves f m (Pure.pure a : Parser α) (Pure.pure (m a) : Parser β) where
  run_map _ := rfl
  quotes hrun := by cases hrun

theorem bind {p : Parser α} {q : Parser β} {k : α → Parser γ} {k' : β → Parser δ}
    (hp : Moves f m p q) (hk : ∀ a, Moves f m' (k a) (k' (m a))) :
    Moves f m' (p >>= k) (q >>= k') where
  run_map ts := by
    have hmap := hp.run_map ts
    rcases hrun : run p ts with ⟨e | a, rest⟩ <;> rw [hrun] at hmap
    · rw [run_bind_of_error k hrun, run_bind_of_error k' hmap]
      rfl
    · rw [run_bind_of_ok k hrun, run_bind_of_ok k' hmap]
      exact (hk a).run_map rest
  quotes {ts rest e} h := by
    rcases hrun : run p ts with ⟨e' | a, mid⟩
    · rw [run_bind_of_error k hrun] at h
      obtain ⟨⟨⟩, -⟩ := Prod.mk.inj h
      exact hp.quotes hrun
    · rw [run_bind_of_ok k hrun] at h
      exact (hk a).quotes h

/-- What is not made of tokens is the same in both runs. -/
theorem bind_same {p q : Parser α} {k : α → Parser γ} {k' : α → Parser δ} (hp : Moves f id p q)
    (hk : ∀ a, Moves f m' (k a) (k' a)) : Moves f m' (p >>= k) (q >>= k') :=
  hp.bind hk

theorem map {p : Parser α} {q : Parser β} {g : α → γ} {g' : β → δ} (hp : Moves f m p q)
    (h : ∀ a, g' (m a) = m' (g a)) : Moves f m' (g <$> p) (g' <$> q) := by
  have hbind : Moves f m' (p >>= fun a => Pure.pure (g a)) (q >>= fun b => Pure.pure (g' b)) :=
    hp.bind fun a => by
      rw [h]
      exact pure (g a)
  exact hbind.congr (Parser.run_map g p) (Parser.run_map g' q)

theorem enter_bind {rule : Production} {k : Unit → Parser α} {k' : Unit → Parser β}
    (h : Moves f m (k ()) (k' ())) : Moves f m (enter rule >>= k) (enter rule >>= k') :=
  h.congr (run_enter_bind rule k) (run_enter_bind rule k')

theorem deeper {p : Parser α} {q : Parser β} (h : Moves f m p q) : Moves f m p.deeper q.deeper :=
  h.congr (run_deeper p) (run_deeper q)

theorem fail {cause : Cause} (h : cause.Plain) :
    Moves f m (Parser.fail cause : Parser α) (Parser.fail cause : Parser β) where
  run_map ts := by
    rw [run_fail, run_fail, moved, Failure.mapTokens, h.mapTokens, List.head?_map]
  quotes hrun := by
    obtain ⟨⟨⟩, -⟩ := Prod.mk.inj hrun
    exact h.quotes _

/-- A failure at a token, which the cause may quote. -/
theorem failAt {t : Token} {cause : Cause} (hc : cause.mapTokens f = cause)
    (hq : Failure.Quotes ⟨cause, some t⟩) :
    Moves f m (Parser.failAt (some t) cause : Parser α)
      (Parser.failAt (some (f t)) cause : Parser β) where
  run_map ts := by rw [run_failAt, run_failAt, moved, Failure.mapTokens, hc, Option.map_some]
  quotes hrun := by
    obtain ⟨⟨⟩, -⟩ := Prod.mk.inj hrun
    exact hq

variable (hf : Relocates f)

include hf

theorem take {expected : Kind} {cause : Kind → Cause} (hc : ∀ k, (cause k).Plain) :
    Moves f f (Parser.take expected cause) (Parser.take expected cause) where
  run_map ts := by
    cases ts with
    | nil => rfl
    | cons t rest =>
      by_cases ht : t.kind = expected
      · have ht' : (f t).kind = expected := (hf.kind t).trans ht
        rw [List.map_cons, run_take_of_kind _ _ ht, run_take_of_kind _ _ ht', moved]
      · have ht' : (f t).kind ≠ expected := by rwa [hf.kind]
        rw [List.map_cons, run_take_of_ne _ _ ht, run_take_of_ne _ _ ht', moved,
          Failure.mapTokens, (hc _).mapTokens, hf.kind]
        rfl
  quotes {ts rest e} hrun := by
    cases ts with
    | nil =>
      obtain ⟨⟨⟩, -⟩ := Prod.mk.inj hrun
      trivial
    | cons t rest =>
      by_cases ht : t.kind = expected
      · rw [run_take_of_kind _ _ ht] at hrun
        cases hrun
      · rw [run_take_of_ne _ _ ht] at hrun
        obtain ⟨⟨⟩, -⟩ := Prod.mk.inj hrun
        exact (hc _).quotes _

theorem expect (expected : Kind) : Moves f f (Parser.expect expected) (Parser.expect expected) :=
  take hf fun _ => trivial

theorem expect_bind {expected : Kind} {k : Token → Parser α} {k' : Token → Parser β}
    (hk : ∀ t, Moves f m (k t) (k' (f t))) :
    Moves f m (Parser.expect expected >>= k) (Parser.expect expected >>= k') :=
  (expect hf expected).bind hk

theorem require_bind {expected : Kind} {place : Place} {k : Token → Parser α}
    {k' : Token → Parser β} (hk : ∀ t, Moves f m (k t) (k' (f t))) :
    Moves f m (require expected place >>= k) (require expected place >>= k') := by
  have htake : Moves f f (require expected place) (require expected place) :=
    take hf fun _ => trivial
  exact htake.bind hk

theorem current? : Moves f id Parser.current? Parser.current? where
  run_map ts := by
    cases ts with
    | nil => rfl
    | cons t rest => simp [run, Parser.current?, moved, hf.kind]
  quotes hrun := by cases hrun

theorem following? : Moves f id Parser.following? Parser.following? where
  run_map ts := by
    match ts with
    | [] | [_] => rfl
    | t :: u :: rest => simp [run, Parser.following?, moved, hf.kind]
  quotes hrun := by cases hrun

theorem current : Moves f id Parser.current Parser.current := by
  refine (current? hf).bind fun k => ?_
  cases k with
  | some kind => exact .pure kind
  | none => exact .fail trivial

theorem following : Moves f id Parser.following Parser.following := by
  refine (following? hf).bind fun k => ?_
  cases k with
  | some kind => exact .pure kind
  | none => exact .fail trivial

theorem accept? {ε : Type} (table : Kind → Option ε) :
    Moves f (Option.map (Prod.map id f)) (Parser.accept? table) (Parser.accept? table) where
  run_map ts := by
    cases ts with
    | nil => rfl
    | cons t rest =>
      cases ht : table t.kind with
      | none => simp [run, Parser.accept?, ht, hf.kind, moved]
      | some op => simp [run, Parser.accept?, ht, hf.kind, moved]
  quotes {ts rest e} hrun := by
    cases ts with
    | nil => cases hrun
    | cons t rest =>
      cases ht : table t.kind with
      | none => simp [run, Parser.accept?, ht] at hrun
      | some op => simp [run, Parser.accept?, ht] at hrun

theorem accept?_bind {ε : Type} {table : Kind → Option ε} {k : Option (ε × Token) → Parser α}
    {k' : Option (ε × Token) → Parser β} (hn : Moves f m (k none) (k' none))
    (hs : ∀ op t, Moves f m (k (some (op, t))) (k' (some (op, f t)))) :
    Moves f m (Parser.accept? table >>= k) (Parser.accept? table >>= k') := by
  refine (accept? hf table).bind fun op => ?_
  cases op with
  | none => exact hn
  | some op => exact hs op.1 op.2

omit hf in
theorem many {test : Parser Bool} {item : Parser α} {item' : Parser β} (ht : Moves f id test test)
    (hi : Moves f m item item') : Moves f (List.map m) (many test item) (many test item') := by
  have hbound : ∀ bound, Moves f (List.map m) (manyUpTo test item bound)
      (manyUpTo test item' (bound.map f)) := by
    intro bound
    induction bound with
    | nil => exact ht.bind fun _ => .pure []
    | cons u bound ih =>
      refine ht.bind fun b => ?_
      cases b with
      | false => exact .pure []
      | true => exact hi.bind fun a => ih.map fun _ => rfl
  exact ⟨fun ts => (hbound ts).run_map ts, fun {ts _ _} hrun => (hbound ts).quotes hrun⟩

theorem chain {ε : Type} {table : Kind → Option ε} {operand : Parser α} {operand' : Parser β}
    {join : ε → Token → α → α → α} {join' : ε → Token → β → β → β} (ho : Moves f m operand operand')
    (hj : ∀ op t a b, m (join op t a b) = join' op (f t) (m a) (m b)) :
    Moves f m (chain table operand join) (chain table operand' join') := by
  have hbound : ∀ bound lhs, Moves f m (extendUpTo table operand join bound lhs)
      (extendUpTo table operand' join' (bound.map f) (m lhs)) := by
    intro bound
    induction bound with
    | nil => exact fun lhs => .pure lhs
    | cons u bound ih =>
      refine fun lhs => accept?_bind hf (.pure lhs) fun op t => ho.bind fun rhs => ?_
      rw [← hj]
      exact ih _
  exact ho.bind fun lhs =>
    ⟨fun ts => (hbound ts lhs).run_map ts, fun {ts _ _} hrun => (hbound ts lhs).quotes hrun⟩

end Moves

def IntLiteral.mapTokens (f : Token → Token) (l : IntLiteral) : IntLiteral :=
  ⟨l.value, f l.token⟩

structure MovesInner (f : Token → Token) (inner : Nested) : Prop where
  statement : Moves f (Stmt.mapTokens f) inner.statement inner.statement
  assignment : Moves f (Expr.mapTokens f) inner.assignment inner.assignment
  unary : Moves f (Expr.mapTokens f) inner.unary inner.unary
  power : Moves f (Expr.mapTokens f) inner.power inner.power

section

variable (hf : Relocates f)

include hf

theorem moves_integer : Moves f (IntLiteral.mapTokens f) integer integer := by
  refine .enter_bind <| .expect_bind hf fun t => ?_
  rw [hf.lexeme]
  cases Numeral.readInteger? t.lexeme.toList with
  | some value => exact .pure (⟨value, t⟩ : IntLiteral)
  | none => exact .failAt rfl rfl

theorem moves_float : Moves f (Expr.mapTokens f) float float := by
  refine .enter_bind <| .expect_bind hf fun t => ?_
  rw [hf.lexeme]
  cases Numeral.Binary64.read? t.lexeme.toList with
  | some value => exact .pure (Expr.float value t)
  | none => exact .failAt rfl rfl

theorem moves_string : Moves f (Expr.mapTokens f) string string := by
  refine .enter_bind <| .expect_bind hf fun t => ?_
  rw [hf.lexeme]
  exact .pure (Expr.string (unquote t.lexeme) t)

theorem moves_atComma : Moves f id atComma atComma :=
  (Moves.current hf).bind_same fun k => .pure (decide (k = .comma))

variable {inner : Nested} (h : MovesInner f inner)

include h

omit hf in
theorem moves_expression : Moves f (Expr.mapTokens f) (expression inner) (expression inner) :=
  .enter_bind h.assignment

theorem moves_index : Moves f (Expr.mapTokens f) (index inner) (index inner) :=
  .enter_bind <| .expect_bind hf fun name => .expect_bind hf fun _ =>
    (moves_expression h).bind fun e => .require_bind hf fun _ => .pure (Expr.index name e)

theorem moves_arguments :
    Moves f (List.map (Expr.mapTokens f)) (arguments inner) (arguments inner) := by
  refine (Moves.current hf).bind_same fun k => ?_
  have hmore : Moves f (List.map (Expr.mapTokens f)) (many atComma (furtherArgument inner))
      (many atComma (furtherArgument inner)) :=
    .many (moves_atComma hf) (.expect_bind hf fun _ => moves_expression h)
  split
  · exact .pure []
  · exact (moves_expression h).bind fun e => hmore.bind fun es => .pure (e :: es)

theorem moves_call : Moves f (Expr.mapTokens f) (call inner) (call inner) := by
  refine .enter_bind <| .expect_bind hf fun name => .expect_bind hf fun _ =>
    (moves_arguments hf h).bind fun args => .require_bind hf fun _ => ?_
  rw [← Expr.mapEach_eq_map]
  exact .pure (Expr.call name args)

theorem moves_named : Moves f (Expr.mapTokens f) (named inner) (named inner) := by
  refine (Moves.following? hf).bind_same fun k => ?_
  split
  · exact moves_index hf h
  · exact moves_call hf h
  · exact (Moves.expect hf _).map fun _ => rfl

theorem moves_parenthesized :
    Moves f (Expr.mapTokens f) (parenthesized inner) (parenthesized inner) :=
  .expect_bind hf fun _ => (moves_expression h).bind fun e => .require_bind hf fun _ => .pure e

theorem moves_atom : Moves f (Expr.mapTokens f) (atom inner) (atom inner) := by
  refine .enter_bind <| (Moves.current hf).bind_same fun k => ?_
  split
  · exact (moves_integer hf).map fun _ => rfl
  · exact moves_float hf
  · exact moves_string hf
  · exact moves_named hf h
  · exact moves_parenthesized hf h
  · exact .fail trivial

theorem moves_power : Moves f (Expr.mapTokens f) (power inner) (power inner) :=
  .enter_bind <| (moves_atom hf h).bind fun lhs =>
    .accept?_bind hf (.pure lhs) fun _ _ => h.power.map fun _ => rfl

theorem moves_unary : Moves f (Expr.mapTokens f) (unary inner) (unary inner) :=
  .enter_bind <| .accept?_bind hf (moves_power hf h) fun _ _ => h.unary.map fun _ => rfl

theorem moves_product : Moves f (Expr.mapTokens f) (product inner) (product inner) :=
  .enter_bind <| .chain hf (moves_unary hf h) fun _ _ _ _ => rfl

theorem moves_sum : Moves f (Expr.mapTokens f) (sum inner) (sum inner) :=
  .enter_bind <| .chain hf (moves_product hf h) fun _ _ _ _ => rfl

theorem moves_comparison : Moves f (Expr.mapTokens f) (comparison inner) (comparison inner) :=
  .enter_bind <| .chain hf (moves_sum hf h) fun _ _ _ _ => rfl

theorem moves_equality : Moves f (Expr.mapTokens f) (equality inner) (equality inner) :=
  .enter_bind <| .chain hf (moves_comparison hf h) fun _ _ _ _ => rfl

theorem moves_assignment : Moves f (Expr.mapTokens f) (assignment inner) (assignment inner) :=
  .enter_bind <| (moves_equality hf h).bind fun lhs =>
    .accept?_bind hf (.pure lhs) fun _ _ => h.assignment.map fun _ => rfl

theorem moves_expressionStatement :
    Moves f (Stmt.mapTokens f) (expressionStatement inner) (expressionStatement inner) :=
  .enter_bind <| (moves_expression h).bind fun e => .require_bind hf fun _ => .pure (Stmt.expr e)

theorem moves_initializer? :
    Moves f (Option.map (Expr.mapTokens f)) (initializer? inner) (initializer? inner) := by
  refine (Moves.current hf).bind_same fun k => ?_
  split
  · exact .expect_bind hf fun _ => (moves_expression h).map fun _ => rfl
  · exact .pure none

theorem moves_variableEnd (type name : Token) : Moves f (Stmt.mapTokens f)
    (variableEnd inner type name) (variableEnd inner (f type) (f name)) :=
  (moves_initializer? hf h).bind fun init =>
    .require_bind hf fun _ => .pure (Stmt.var type name init)

omit h in
theorem moves_arrayEnd (type name : Token) :
    Moves f (Stmt.mapTokens f) (arrayEnd type name) (arrayEnd (f type) (f name)) :=
  .expect_bind hf fun _ => (moves_integer hf).bind fun size => .require_bind hf fun _ =>
    .require_bind hf fun _ => .pure (Stmt.array type name size)

theorem moves_declaration :
    Moves f (Stmt.mapTokens f) (declaration inner) (declaration inner) := by
  refine .enter_bind <| .expect_bind hf fun type => .expect_bind hf fun name =>
    (Moves.current hf).bind_same fun k => ?_
  split
  · exact moves_arrayEnd hf type name
  · exact moves_variableEnd hf h type name

theorem moves_variableStart :
    Moves f (Stmt.mapTokens f) (variableStart inner) (variableStart inner) :=
  .expect_bind hf fun type => .expect_bind hf fun name => moves_variableEnd hf h type name

omit h in
theorem moves_emptyStatement : Moves f (Stmt.mapTokens f) emptyStatement emptyStatement :=
  .expect_bind hf fun _ => .pure Stmt.empty

omit h in
theorem moves_atDeclaration : Moves f id atDeclaration atDeclaration := by
  refine (Moves.current hf).bind_same fun k => ?_
  split
  · exact (Moves.following hf).bind_same fun k' => .pure (decide (k' = .identifier))
  · exact .pure false

theorem moves_forStart : Moves f (Stmt.mapTokens f) (forStart inner) (forStart inner) := by
  refine .enter_bind <| (moves_atDeclaration hf).bind_same fun b => ?_
  split
  · exact moves_variableStart hf h
  · refine (Moves.current hf).bind_same fun k => ?_
    split
    · exact moves_emptyStatement hf
    · exact moves_expressionStatement hf h

omit hf in
theorem moves_statement : Moves f (Stmt.mapTokens f) (statement inner) (statement inner) :=
  .enter_bind h.statement

theorem moves_forLoop : Moves f (Stmt.mapTokens f) (forLoop inner) (forLoop inner) :=
  .enter_bind <| .expect_bind hf fun _ => .require_bind hf fun _ => (moves_forStart hf h).bind
    fun start => (moves_expression h).bind fun e => .require_bind hf fun _ =>
      (moves_expression h).bind fun i => .require_bind hf fun _ =>
        (moves_statement h).bind fun body => .pure (forAsWhile start e i body)

theorem moves_condition (word closed : Place) :
    Moves f (Expr.mapTokens f) (condition inner word closed) (condition inner word closed) :=
  .require_bind hf fun _ => (moves_expression h).bind fun e => .require_bind hf fun _ => .pure e

theorem moves_whileLoop : Moves f (Stmt.mapTokens f) (whileLoop inner) (whileLoop inner) :=
  .enter_bind <| .expect_bind hf fun _ => (moves_condition hf h _ _).bind fun _ =>
    (moves_statement h).map fun _ => rfl

theorem moves_conditional : Moves f (Stmt.mapTokens f) (conditional inner) (conditional inner) := by
  refine .enter_bind <| .expect_bind hf fun _ => (moves_condition hf h _ _).bind fun e =>
    (moves_statement h).bind fun s => (Moves.current? hf).bind_same fun k => ?_
  split
  · exact .expect_bind hf fun _ => (moves_statement h).map fun _ => rfl
  · exact .pure (Stmt.ifThen e s)

theorem moves_returned? :
    Moves f (Option.map (Expr.mapTokens f)) (returned? inner) (returned? inner) := by
  refine (Moves.current hf).bind_same fun k => ?_
  split
  · exact .pure none
  · exact (moves_expression h).map fun _ => rfl

theorem moves_result : Moves f (Stmt.mapTokens f) (Parser.result inner) (Parser.result inner) :=
  .enter_bind <| .expect_bind hf fun keyword => (moves_returned? hf h).bind fun value =>
    .require_bind hf fun _ => .pure (Stmt.result keyword value)

theorem moves_block :
    Moves f (List.map (Stmt.mapTokens f)) (Parser.block inner) (Parser.block inner) := by
  have hmore : Moves f id insideBlock insideBlock :=
    (Moves.current hf).bind_same fun k => .pure (decide (k ≠ .rightBrace))
  exact .enter_bind <| .expect_bind hf fun _ => (Moves.many hmore (moves_statement h)).bind
    fun ss => .expect_bind hf fun _ => .pure ss

theorem moves_dispatch : Moves f (Stmt.mapTokens f) (dispatch inner) (dispatch inner) := by
  refine (Moves.current hf).bind_same fun k => ?_
  split
  · refine (Moves.following hf).bind_same fun k' => ?_
    split
    · exact moves_declaration hf h
    · exact moves_expressionStatement hf h
  · refine (moves_block hf h).map fun ss => ?_
    rw [← Stmt.mapEach_eq_map]
    rfl
  · exact moves_emptyStatement hf
  · exact moves_forLoop hf h
  · exact moves_whileLoop hf h
  · exact moves_conditional hf h
  · exact moves_result hf h
  · exact moves_expressionStatement hf h

omit h in
theorem moves_param : Moves f (Param.mapTokens f) param param :=
  .expect_bind hf fun type => .expect_bind hf fun name => .pure (⟨type, name⟩ : Param)

omit h in
theorem moves_paramList : Moves f (List.map (Param.mapTokens f)) paramList paramList := by
  have hmore : Moves f (List.map (Param.mapTokens f)) (many atComma furtherParam)
      (many atComma furtherParam) :=
    .many (moves_atComma hf) (.expect_bind hf fun _ => moves_param hf)
  refine (Moves.current hf).bind_same fun k => ?_
  split
  · exact .pure []
  · exact .enter_bind <| (moves_param hf).bind fun p => hmore.bind fun ps => .pure (p :: ps)

theorem moves_function :
    Moves f (Function.mapTokens f) (Parser.function inner) (Parser.function inner) :=
  .enter_bind <| .expect_bind hf fun type => .expect_bind hf fun name => .expect_bind hf fun _ =>
    (moves_paramList hf).bind fun ps => .expect_bind hf fun _ => (moves_block hf h).bind
      fun body => .pure (⟨type, name, ps, body⟩ : Function)

theorem moves_functions : Moves f (List.map (Function.mapTokens f))
    (many moreTokens (Parser.function inner)) (many moreTokens (Parser.function inner)) :=
  .many ((Moves.current? hf).bind_same fun k => .pure k.isSome) (moves_function hf h)

theorem moves_program :
    Moves f (Program.mapTokens f) (Parser.program inner) (Parser.program inner) :=
  .enter_bind <| (moves_functions hf h).bind fun fs => .pure (⟨fs⟩ : Program)

omit hf in
theorem moves_wholeExpression :
    Moves f (Expr.mapTokens f) (wholeExpression inner) (wholeExpression inner) := by
  refine (moves_expression h).bind fun e => ⟨fun ts => ?_, fun {ts rest e} hrun => ?_⟩
  · cases ts <;> rfl
  · cases ts with
    | nil => cases hrun
    | cons t ts =>
      obtain ⟨⟨⟩, -⟩ := Prod.mk.inj hrun
      rfl

end

/-- However many levels may still be opened, the parsers one level down move with their tokens. -/
theorem movesInner_within (hf : Relocates f) (room : Nat) : MovesInner f (.within room) := by
  induction room with
  | zero => exact ⟨.fail trivial, .fail trivial, .fail trivial, .fail trivial⟩
  | succ room ih =>
    exact ⟨(moves_dispatch hf ih).deeper, (moves_assignment hf ih).deeper,
      (moves_unary hf ih).deeper, (moves_power hf ih).deeper⟩

theorem moves_programParser (hf : Relocates f) (limit : Nat) :
    Moves f (Program.mapTokens f) (programParser limit) (programParser limit) :=
  moves_program hf (movesInner_within hf limit)

def elsewhere (ts : List Token) (t : Token) : Token :=
  if t ∈ ts then t else { t with stop := ⟨t.stop.line + 1, t.stop.column⟩ }

theorem relocates_elsewhere (ts : List Token) : Relocates (elsewhere ts) where
  kind t := by unfold elsewhere; split <;> rfl
  lexeme t := by unfold elsewhere; split <;> rfl

theorem elsewhere_eq_self_iff {ts : List Token} {t : Token} : elsewhere ts t = t ↔ t ∈ ts := by
  refine ⟨fun h => ?_, fun h => if_pos h⟩
  unfold elsewhere at h
  split at h
  · assumption
  · have hline := congrArg (fun u => u.stop.line) h
    simp at hline

/-- A failure only points at tokens that were given. Were its token none of them, it could be moved
without them, and the failure would not be the same. -/
theorem mem_of_failure {p : Parser α} (h : ∀ f, Relocates f → ∃ m : α → α, Moves f m p p)
    {ts rest : List Token} {e : Failure} {t : Token} (hrun : run p ts = (.error e, rest))
    (ht : e.token = some t) : t ∈ ts := by
  obtain ⟨m, hm⟩ := h _ (relocates_elsewhere ts)
  have hsame : ts.map (elsewhere ts) = ts := by
    rw [List.map_congr_left fun u hu => elsewhere_eq_self_iff.mpr hu, List.map_id']
  have hmap := hm.run_map ts
  rw [hsame, hrun] at hmap
  have he : e = e.mapTokens (elsewhere ts) := Except.error.inj (congrArg Prod.fst hmap)
  have htoken : e.token = e.token.map (elsewhere ts) := congrArg Failure.token he
  rw [ht, Option.map_some] at htoken
  exact elsewhere_eq_self_iff.mp (Option.some.inj htoken).symm

end BraceLang.Grammar
