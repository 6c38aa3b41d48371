import BraceLang.Proofs.Language

/-!
# Two parsers side by side

The parsers of the grammar are written over those one level of nesting further down, and are put
together from a few combinators. So two choices of the latter can be compared on the same tokens:
what sequences keep, and what holds of a single look or a single token, holds of every production as
soon as it holds one level down (`Comparison.Closed`). A property of one run is a comparison that
does not look at the other.
-/

namespace BraceLang.Grammar

open BraceLang.Grammar.Parser

/-- What one parser does on some tokens, compared with what another does on them. -/
abbrev Comparison : Type 1 :=
  ⦃α : Type⦄ → List Token → Outcome α → Outcome α → Prop

def Compares (R : Comparison) {α : Type} (p q : Parser α) : Prop :=
  ∀ ts, R ts (p ts) (q ts)

/-- The comparison holds of what is done without opening a level, and of sequences. That nothing can
be nested any further is no failure that it has to hold of. -/
structure Comparison.Closed (R : Comparison) : Prop where
  pure : ∀ {α : Type} (a : α), Compares R (Pure.pure a : Parser α) (Pure.pure a)
  failAt : ∀ {α : Type} (token : Option Token) {cause : Cause}, cause.site ≠ .anywhere →
    Compares R (Parser.failAt token cause : Parser α) (Parser.failAt token cause)
  taken : ∀ {α : Type} (a : α) (t : Token) (rest : List Token),
    R (t :: rest) ⟨.ok a, rest, []⟩ ⟨.ok a, rest, []⟩
  enter : ∀ rule, Compares R (Parser.enter rule) (Parser.enter rule)
  bind : ∀ {α β : Type} {p q : Parser α} {f g : α → Parser β}, Compares R p q →
    (∀ a, Compares R (f a) (g a)) → Compares R (p >>= f) (q >>= g)

variable {α β : Type} {R : Comparison}

namespace Comparison.Closed

variable (hR : R.Closed)

include hR

theorem map {p q : Parser α} (h : Compares R p q) (f : α → β) : Compares R (f <$> p) (f <$> q) := by
  have hbind (p : Parser α) : (f <$> p) = p >>= fun a => Pure.pure (f a) := by
    funext ts
    rcases hp : p ts with ⟨result, rest, steps⟩
    cases result with
    | ok a => simp [bind_apply_of_ok _ hp, hp, Except.map]
    | error e => simp [bind_apply_of_error _ hp, hp, Except.map]
  rw [hbind, hbind]
  exact hR.bind h fun a => hR.pure (f a)

theorem enter_bind {rule : Production} {f g : Unit → Parser α} (h : Compares R (f ()) (g ())) :
    Compares R (Parser.enter rule >>= f) (Parser.enter rule >>= g) :=
  hR.bind (hR.enter rule) fun _ => h

theorem fail {cause : Cause} (h : cause.site ≠ .anywhere) :
    Compares R (Parser.fail cause : Parser α) (Parser.fail cause) :=
  fun ts => hR.failAt ts.head? h ts

theorem take {expected : Kind} {cause : Kind → Cause} (h : ∀ k, (cause k).site ≠ .anywhere) :
    Compares R (Parser.take expected cause) (Parser.take expected cause) := by
  intro ts
  cases ts with
  | nil => exact hR.fail (by decide) []
  | cons t rest =>
    rw [Parser.take]
    split
    · exact hR.taken t t rest
    · exact hR.fail (h t.kind) (t :: rest)

theorem expect (expected : Kind) : Compares R (Parser.expect expected) (Parser.expect expected) :=
  hR.take fun _ => nofun

theorem expect_bind {expected : Kind} {f g : Token → Parser α} (h : ∀ t, Compares R (f t) (g t)) :
    Compares R (Parser.expect expected >>= f) (Parser.expect expected >>= g) :=
  hR.bind (hR.expect expected) h

theorem require_bind {expected : Kind} {place : Place} {f g : Token → Parser α}
    (h : ∀ t, Compares R (f t) (g t)) :
    Compares R (require expected place >>= f) (require expected place >>= g) :=
  hR.bind (hR.take fun _ => nofun) h

theorem current?_bind {f g : Option Kind → Parser α} (h : ∀ k, Compares R (f k) (g k)) :
    Compares R (current? >>= f) (current? >>= g) :=
  hR.bind (fun ts => hR.pure (ts.head?.map Token.kind) ts) h

theorem following?_bind {f g : Option Kind → Parser α} (h : ∀ k, Compares R (f k) (g k)) :
    Compares R (following? >>= f) (following? >>= g) :=
  hR.bind (fun ts => hR.pure (ts[1]?.map Token.kind) ts) h

theorem current : Compares R Parser.current Parser.current := by
  refine hR.current?_bind fun k => ?_
  cases k with
  | some kind => exact hR.pure kind
  | none => exact hR.fail nofun

theorem following : Compares R Parser.following Parser.following := by
  refine hR.following?_bind fun k => ?_
  cases k with
  | some kind => exact hR.pure kind
  | none => exact hR.fail nofun

theorem current_bind {f g : Kind → Parser α} (h : ∀ k, Compares R (f k) (g k)) :
    Compares R (Parser.current >>= f) (Parser.current >>= g) :=
  hR.bind hR.current h

theorem accept? {γ : Type} (table : Kind → Option γ) :
    Compares R (Parser.accept? table) (Parser.accept? table) := by
  intro ts
  cases ts with
  | nil => exact hR.pure none []
  | cons t rest =>
    rw [Parser.accept?]
    split
    · exact hR.taken _ t rest
    · exact hR.pure none (t :: rest)

theorem accept?_bind {γ : Type} {table : Kind → Option γ} {f g : Option (γ × Token) → Parser α}
    (hn : Compares R (f none) (g none))
    (hs : ∀ op t, Compares R (f (some (op, t))) (g (some (op, t)))) :
    Compares R (Parser.accept? table >>= f) (Parser.accept? table >>= g) := by
  refine hR.bind (hR.accept? table) fun op => ?_
  cases op with
  | none => exact hn
  | some op => exact hs op.1 op.2

theorem many {test : Parser Bool} {item item' : Parser α} (ht : Compares R test test)
    (hi : Compares R item item') : Compares R (many test item) (many test item') := by
  suffices h : ∀ bound, Compares R (manyUpTo test item bound) (manyUpTo test item' bound) from
    fun ts => h ts ts
  intro bound
  induction bound with
  | nil => exact hR.bind ht fun _ => hR.pure []
  | cons u bound ih =>
    refine hR.bind ht fun b => ?_
    cases b with
    | false => exact hR.pure []
    | true => exact hR.bind hi fun a => hR.map ih (a :: ·)

theorem chain {γ : Type} {table : Kind → Option γ} {operand operand' : Parser α}
    {join : γ → Token → α → α → α} (h : Compares R operand operand') :
    Compares R (chain table operand join) (chain table operand' join) := by
  suffices hbound : ∀ bound lhs, Compares R (extendUpTo table operand join bound lhs)
      (extendUpTo table operand' join bound lhs) from
    hR.bind h fun lhs ts => hbound ts lhs ts
  intro bound
  induction bound with
  | nil => exact fun lhs => hR.pure lhs
  | cons u bound ih =>
    exact fun lhs => hR.accept?_bind (hR.pure lhs) fun op t => hR.bind h fun rhs => ih _

end Comparison.Closed

structure ComparesInner (R : Comparison) (inner inner' : Nested) : Prop where
  statement : Compares R inner.statement inner'.statement
  assignment : Compares R inner.assignment inner'.assignment
  unary : Compares R inner.unary inner'.unary
  power : Compares R inner.power inner'.power

section

variable (hR : R.Closed)

include hR

theorem compares_integer : Compares R integer integer := by
  refine hR.enter_bind <| hR.expect_bind fun t => ?_
  split
  · exact hR.pure _
  · exact hR.failAt _ nofun

theorem compares_float : Compares R float float := by
  refine hR.enter_bind <| hR.expect_bind fun t => ?_
  split
  · exact hR.pure _
  · exact hR.failAt _ nofun

theorem compares_string : Compares R string string :=
  hR.enter_bind <| hR.expect_bind fun _ => hR.pure _

theorem compares_atComma : Compares R atComma atComma :=
  hR.current_bind fun _ => hR.pure _

variable {inner inner' : Nested} (h : ComparesInner R inner inner')

include h

theorem compares_expression : Compares R (expression inner) (expression inner') :=
  hR.enter_bind h.assignment

theorem compares_index : Compares R (index inner) (index inner') :=
  hR.enter_bind <| hR.expect_bind fun _ => hR.expect_bind fun _ =>
    hR.bind (compares_expression hR h) fun _ => hR.require_bind fun _ => hR.pure _

theorem compares_furtherArgument : Compares R (furtherArgument inner) (furtherArgument inner') :=
  hR.expect_bind fun _ => compares_expression hR h

theorem compares_arguments : Compares R (arguments inner) (arguments inner') := by
  refine hR.current_bind fun k => ?_
  split
  · exact hR.pure _
  · exact hR.bind (compares_expression hR h) fun _ =>
      hR.bind (hR.many (compares_atComma hR) (compares_furtherArgument hR h)) fun _ => hR.pure _

theorem compares_call : Compares R (call inner) (call inner') :=
  hR.enter_bind <| hR.expect_bind fun _ => hR.expect_bind fun _ =>
    hR.bind (compares_arguments hR h) fun _ => hR.require_bind fun _ => hR.pure _

theorem compares_named : Compares R (named inner) (named inner') := by
  refine hR.following?_bind fun k => ?_
  split
  · exact compares_index hR h
  · exact compares_call hR h
  · exact hR.map (hR.expect _) _

theorem compares_parenthesized : Compares R (parenthesized inner) (parenthesized inner') :=
  hR.expect_bind fun _ => hR.bind (compares_expression hR h) fun _ =>
    hR.require_bind fun _ => hR.pure _

theorem compares_atom : Compares R (atom inner) (atom inner') := by
  refine hR.enter_bind <| hR.current_bind fun k => ?_
  split
  · exact hR.map (compares_integer hR) _
  · exact compares_float hR
  · exact compares_string hR
  · exact compares_named hR h
  · exact compares_parenthesized hR h
  · exact hR.fail nofun

theorem compares_power : Compares R (power inner) (power inner') :=
  hR.enter_bind <| hR.bind (compares_atom hR h) fun _ =>
    hR.accept?_bind (hR.pure _) fun _ _ => hR.map h.power _

theorem compares_unary : Compares R (unary inner) (unary inner') :=
  hR.enter_bind <| hR.accept?_bind (compares_power hR h) fun _ _ => hR.map h.unary _

theorem compares_product : Compares R (product inner) (product inner') :=
  hR.enter_bind <| hR.chain (compares_unary hR h)

theorem compares_sum : Compares R (sum inner) (sum inner') :=
  hR.enter_bind <| hR.chain (compares_product hR h)

theorem compares_comparison : Compares R (comparison inner) (comparison inner') :=
  hR.enter_bind <| hR.chain (compares_sum hR h)

theorem compares_equality : Compares R (equality inner) (equality inner') :=
  hR.enter_bind <| hR.chain (compares_comparison hR h)

theorem compares_assignment : Compares R (assignment inner) (assignment inner') :=
  hR.enter_bind <| hR.bind (compares_equality hR h) fun _ =>
    hR.accept?_bind (hR.pure _) fun _ _ => hR.map h.assignment _

theorem compares_statement : Compares R (statement inner) (statement inner') :=
  hR.enter_bind h.statement

theorem compares_expressionStatement :
    Compares R (expressionStatement inner) (expressionStatement inner') :=
  hR.enter_bind <| hR.bind (compares_expression hR h) fun _ => hR.require_bind fun _ => hR.pure _

theorem compares_initializer? : Compares R (initializer? inner) (initializer? inner') := by
  refine hR.current_bind fun k => ?_
  split
  · exact hR.expect_bind fun _ => hR.map (compares_expression hR h) _
  · exact hR.pure _

theorem compares_variableEnd (type name : Token) :
    Compares R (variableEnd inner type name) (variableEnd inner' type name) :=
  hR.bind (compares_initializer? hR h) fun _ => hR.require_bind fun _ => hR.pure _

omit h in
theorem compares_arrayEnd (type name : Token) :
    Compares R (arrayEnd type name) (arrayEnd type name) :=
  hR.expect_bind fun _ => hR.bind (compares_integer hR) fun _ => hR.require_bind fun _ =>
    hR.require_bind fun _ => hR.pure _

theorem compares_declaration : Compares R (declaration inner) (declaration inner') := by
  refine hR.enter_bind <| hR.expect_bind fun type => hR.expect_bind fun name =>
    hR.current_bind fun k => ?_
  split
  · exact compares_arrayEnd hR type name
  · exact compares_variableEnd hR h type name

theorem compares_variableStart : Compares R (variableStart inner) (variableStart inner') :=
  hR.expect_bind fun type => hR.expect_bind fun name => compares_variableEnd hR h type name

omit h in
theorem compares_emptyStatement : Compares R emptyStatement emptyStatement :=
  hR.expect_bind fun _ => hR.pure _

omit h in
theorem compares_atDeclaration : Compares R atDeclaration atDeclaration := by
  refine hR.current_bind fun k => ?_
  split
  · exact hR.bind hR.following fun _ => hR.pure _
  · exact hR.pure _

theorem compares_forStart : Compares R (forStart inner) (forStart inner') := by
  refine hR.enter_bind <| hR.bind (compares_atDeclaration hR) fun b => ?_
  split
  · exact compares_variableStart hR h
  · refine hR.current_bind fun k => ?_
    split
    · exact compares_emptyStatement hR
    · exact compares_expressionStatement hR h

theorem compares_forLoop : Compares R (forLoop inner) (forLoop inner') :=
  hR.enter_bind <| hR.expect_bind fun _ => hR.require_bind fun _ =>
    hR.bind (compares_forStart hR h) fun _ => hR.bind (compares_expression hR h) fun _ =>
      hR.require_bind fun _ => hR.bind (compares_expression hR h) fun _ =>
        hR.require_bind fun _ => hR.bind (compares_statement hR h) fun _ => hR.pure _

theorem compares_condition (word closed : Place) :
    Compares R (condition inner word closed) (condition inner' word closed) :=
  hR.require_bind fun _ => hR.bind (compares_expression hR h) fun _ =>
    hR.require_bind fun _ => hR.pure _

theorem compares_whileLoop : Compares R (whileLoop inner) (whileLoop inner') :=
  hR.enter_bind <| hR.expect_bind fun _ => hR.bind (compares_condition hR h _ _) fun _ =>
    hR.map (compares_statement hR h) _

theorem compares_conditional : Compares R (conditional inner) (conditional inner') := by
  refine hR.enter_bind <| hR.expect_bind fun _ => hR.bind (compares_condition hR h _ _) fun _ =>
    hR.bind (compares_statement hR h) fun _ => hR.current?_bind fun k => ?_
  split
  · exact hR.expect_bind fun _ => hR.map (compares_statement hR h) _
  · exact hR.pure _

theorem compares_returned? : Compares R (returned? inner) (returned? inner') := by
  refine hR.current_bind fun k => ?_
  split
  · exact hR.pure _
  · exact hR.map (compares_expression hR h) _

theorem compares_result : Compares R (Parser.result inner) (Parser.result inner') :=
  hR.enter_bind <| hR.expect_bind fun _ => hR.bind (compares_returned? hR h) fun _ =>
    hR.require_bind fun _ => hR.pure _

theorem compares_block : Compares R (Parser.block inner) (Parser.block inner') := by
  have hinside : Compares R insideBlock insideBlock := hR.current_bind fun _ => hR.pure _
  exact hR.enter_bind <| hR.expect_bind fun _ =>
    hR.bind (hR.many hinside (compares_statement hR h)) fun _ =>
      hR.expect_bind fun _ => hR.pure _

theorem compares_dispatch : Compares R (dispatch inner) (dispatch inner') := by
  refine hR.current_bind fun k => ?_
  split
  · refine hR.bind hR.following fun k' => ?_
    split
    · exact compares_declaration hR h
    · exact compares_expressionStatement hR h
  · exact hR.map (compares_block hR h) _
  · exact compares_emptyStatement hR
  · exact compares_forLoop hR h
  · exact compares_whileLoop hR h
  · exact compares_conditional hR h
  · exact compares_result hR h
  · exact compares_expressionStatement hR h

omit h in
theorem compares_param : Compares R param param :=
  hR.expect_bind fun _ => hR.expect_bind fun _ => hR.pure _

omit h in
theorem compares_params : Compares R params params := by
  have hfurther : Compares R furtherParam furtherParam :=
    hR.expect_bind fun _ => compares_param hR
  exact hR.enter_bind <| hR.bind (compares_param hR) fun _ =>
    hR.bind (hR.many (compares_atComma hR) hfurther) fun _ => hR.pure _

omit h in
theorem compares_paramList : Compares R paramList paramList := by
  refine hR.current_bind fun k => ?_
  split
  · exact hR.pure _
  · exact compares_params hR

theorem compares_function : Compares R (Parser.function inner) (Parser.function inner') :=
  hR.enter_bind <| hR.expect_bind fun _ => hR.expect_bind fun _ => hR.expect_bind fun _ =>
    hR.bind (compares_paramList hR) fun _ => hR.expect_bind fun _ =>
      hR.bind (compares_block hR h) fun _ => hR.pure _

theorem compares_program : Compares R (Parser.program inner) (Parser.program inner') := by
  have hmore : Compares R moreTokens moreTokens := hR.current?_bind fun _ => hR.pure _
  exact hR.enter_bind <| hR.bind (hR.many hmore (compares_function hR h)) fun _ => hR.pure _

theorem compares_wholeExpression :
    Compares R (wholeExpression inner) (wholeExpression inner') := by
  refine hR.bind (compares_expression hR h) fun e ts => ?_
  cases ts with
  | nil => exact hR.pure e []
  | cons t rest =>
    have hfail : Compares R (Parser.fail (.trailing t) : Parser Expr) (Parser.fail (.trailing t)) :=
      hR.fail nofun
    exact hfail (t :: rest)

end

end BraceLang.Grammar
