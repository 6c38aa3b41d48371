import BraceLang.Proofs.Language

/-!
# Every answer of the parser is derived

Each production is sound for the phrases of its own sort: what it reads is derived by the grammar
with the depth that the run had, and where it fails, the tokens before the error begin a phrase. The
productions one level further down are taken to be sound (`Inner`), so the only induction is that on
the number of levels (`inner_within`).
-/

namespace BraceLang.Grammar

namespace Parser

variable {β : Type} {room : Nat}

theorem integer_sound :
    Sound room Parser.integer fun d c _ l => d = 0 ∧ c = [l.token] ∧ Reads l := by
  refine .enter_bind (.literal_bind (.inl rfl) ?_ fun t ht => ?_)
  · exact ⟨0, _, [], ⟨0, .intLiteral, .origin, .origin, "0"⟩, rfl, rfl, rfl, by decide⟩
  · cases hv : Numeral.readInteger? t.lexeme.toList with
    | some v => exact .inl ⟨⟨v, t⟩, rfl, fun _ => ⟨rfl, rfl, ht, hv⟩⟩
    | none => exact .inr ⟨.integerRange t.lexeme, rfl, rfl⟩

theorem float_sound : Sound room Parser.float (Phrase.language (.expr .atom)) := by
  refine .enter_bind (.literal_bind (.inr rfl) ?_ fun t ht => ?_)
  · exact ⟨0, _, [], .float ⟨0⟩ ⟨.floatLiteral, .origin, .origin, "0."⟩, .float rfl (by decide)⟩
  · cases hv : Numeral.Binary64.read? t.lexeme.toList with
    | some x => exact .inl ⟨.float x t, rfl, fun _ => .float ht hv⟩
    | none => exact .inr ⟨.malformedFloat t.lexeme, rfl, rfl⟩

theorem string_sound : Sound room Parser.string (Phrase.language (.expr .atom)) :=
  .enter_bind (.expect_bind fun _ ht => .pure fun _ => .string ht)

def someToken (k : Kind) : Token :=
  ⟨k, .origin, .origin, ""⟩

theorem atom_inhabited : (Phrase.language (.expr .atom)).Inhabited :=
  ⟨0, _, [], _, .var (t := someToken .identifier) rfl⟩

/-- Statements with what may stand behind them: no `else` that they would take. The level that the
statement itself opens is not counted. -/
def Language.forms : Language Stmt :=
  fun d c rest s => ∃ o, Derives (.form o s) d c ∧ (o = true → headKind? rest ≠ some .reservedElse)

def Language.statements : Language Stmt :=
  fun d c rest s => ∃ o, Derives (.stmt o s) d c ∧ (o = true → headKind? rest ≠ some .reservedElse)

structure Inner (room : Nat) (inner : Nested) : Prop where
  statement : Sound room inner.statement Language.forms.deeper
  assignment : Sound room inner.assignment (Phrase.language (.expr .assignment)).deeper
  unary : Sound room inner.unary (Phrase.language (.expr .unary)).deeper
  power : Sound room inner.power (Phrase.language (.expr .power)).deeper

variable {inner : Nested} (hin : Inner room inner)

include hin

theorem expression_sound :
    Sound room (Parser.expression inner) (Phrase.language (.expr .expression)) :=
  .enter_bind (hin.assignment.mono fun _ _ _ _ ⟨_, hd, h⟩ => hd ▸ .expression h)

theorem index_sound : Sound room (Parser.index inner) (Phrase.language (.expr .atom)) :=
  .enter_bind <| .expect_bind fun t ht => .expect_bind fun o ho =>
    (expression_sound hin).bind fun d ts _ e he => .require_bind fun c hc => .pure fun _ => by
      simpa [Language.after, Phrase.language] using Derives.index ht ho he hc

omit hin in
theorem atComma_sound : Sound room Parser.atComma Language.glance :=
  .current_bind fun _ => .pure fun _ => ⟨rfl, rfl⟩

theorem furtherArgument_sound : Sound room (Parser.furtherArgument inner)
    fun d c _ e => ∃ t ts, c = t :: ts ∧ t.kind = .comma ∧ Derives (.expr .expression e) d ts :=
  .expect_bind fun t ht => (expression_sound hin).mono fun d ts _ e he =>
    ⟨t, ts, rfl, ht, by simpa [Phrase.language] using he⟩

theorem furtherArguments_sound :
    Sound room (many Parser.atComma (Parser.furtherArgument inner))
      (Phrase.language .furtherArguments) := by
  refine .many atComma_sound (furtherArgument_sound hin) (fun _ => .noFurtherArguments) ?_
  rintro d _ _ e d' c' _ es ⟨t, ts, rfl, ht, he⟩ hes
  exact .furtherArguments ht he hes

theorem arguments_sound : Sound room (Parser.arguments inner) (Phrase.language .arguments) := by
  refine .current_bind fun k => ?_
  split
  · exact .pure fun _ => .noArguments
  · refine (expression_sound hin).bind fun d ts _ e he => (furtherArguments_sound hin).bind
      fun d' ts' _ es hes => .pure fun _ => ?_
    simpa [Language.after, Phrase.language] using Derives.someArguments he hes

theorem call_sound : Sound room (Parser.call inner) (Phrase.language (.expr .atom)) :=
  .enter_bind <| .expect_bind fun t ht => .expect_bind fun o ho =>
    (arguments_sound hin).bind fun d ts _ es hes => .require_bind fun c hc => .pure fun _ => by
      simpa [Language.after, Phrase.language] using Derives.call ht ho hes hc

omit hin in
theorem name_sound : Sound room (.var <$> expect .identifier) (Phrase.language (.expr .atom)) :=
  (Sound.expect .identifier).map fun _ _ _ _ ⟨hd, hc, hk⟩ => hd ▸ hc ▸ .var hk

theorem named_sound : Sound room (Parser.named inner) (Phrase.language (.expr .atom)) := by
  intro ts
  refine ⟨atom_inhabited, ?_⟩
  rw [Parser.named, run_following?_bind]
  split
  · exact (index_sound hin ts).explains
  · exact (call_sound hin ts).explains
  · exact (name_sound ts).explains

theorem parenthesized_sound :
    Sound room (Parser.parenthesized inner) (Phrase.language (.expr .atom)) :=
  .expect_bind fun o ho => (expression_sound hin).bind fun d ts _ e he =>
    .require_bind fun c hc => .pure fun _ => by
      simpa [Language.after, Phrase.language] using Derives.parens ho he hc

theorem atom_sound : Sound room (Parser.atom inner) (Phrase.language (.expr .atom)) := by
  refine .enter_bind (.current_bind_at atom_inhabited fun t rest => ?_)
  split
  · refine (Sound.map integer_sound ?_ _).explains
    rintro d c _ l ⟨rfl, rfl, hl⟩
    exact .int hl
  · exact (float_sound _).explains
  · exact (string_sound _).explains
  · exact (named_sound hin _).explains
  · exact (parenthesized_sound hin _).explains
  · exact Sound.blames_current rfl rfl atom_inhabited

omit hin in
theorem powerOp?_eq_some {k : Kind} {op : BinaryOp} (h : powerOp? k = some op) :
    k = .caret ∧ op = .pow := by
  cases k <;> simp_all [powerOp?]

omit hin in
theorem assignmentOp?_eq_some {k : Kind} {op : BinaryOp} (h : assignmentOp? k = some op) :
    k = .equals ∧ op = .assign := by
  cases k <;> simp_all [assignmentOp?]

theorem power_sound : Sound room (Parser.power inner) (Phrase.language (.expr .power)) := by
  refine .enter_bind <| (atom_sound hin).bind fun d ls _ lhs hl => .accept?_bind (.pure fun _ => ?_)
    fun t op ht => hin.power.map ?_
  · simpa [Language.after, Phrase.language] using Derives.tighter rfl hl
  · rintro _ rs _ rhs ⟨d', rfl, hr⟩
    obtain ⟨hk, rfl⟩ := powerOp?_eq_some ht
    simpa [Language.after, Phrase.language] using Derives.pow hl hk hr

theorem unary_sound : Sound room (Parser.unary inner) (Phrase.language (.expr .unary)) := by
  refine .enter_bind <| .accept?_bind ((power_sound hin).mono fun _ _ _ _ h => .tighter rfl h)
    fun t op ht => hin.unary.map ?_
  rintro _ ts _ e ⟨d, rfl, he⟩
  simpa [Language.after, Phrase.language] using Derives.sign ht he

theorem product_sound : Sound room (Parser.product inner) (Phrase.language (.expr .product)) :=
  .enter_bind (.chain (r := .product) rfl (unary_sound hin))

theorem sum_sound : Sound room (Parser.sum inner) (Phrase.language (.expr .sum)) :=
  .enter_bind (.chain (r := .sum) rfl (product_sound hin))

theorem comparison_sound :
    Sound room (Parser.comparison inner) (Phrase.language (.expr .comparison)) :=
  .enter_bind (.chain (r := .comparison) rfl (sum_sound hin))

theorem equality_sound : Sound room (Parser.equality inner) (Phrase.language (.expr .equality)) :=
  .enter_bind (.chain (r := .equality) rfl (comparison_sound hin))

theorem assignment_sound :
    Sound room (Parser.assignment inner) (Phrase.language (.expr .assignment)) := by
  refine .enter_bind <| (equality_sound hin).bind fun d ls _ lhs hl =>
    .accept?_bind (.pure fun _ => ?_) fun t op ht => hin.assignment.map ?_
  · simpa [Language.after, Phrase.language] using Derives.tighter rfl hl
  · rintro _ rs _ rhs ⟨d', rfl, hr⟩
    obtain ⟨hk, rfl⟩ := assignmentOp?_eq_some ht
    simpa [Language.after, Phrase.language] using Derives.assign hl hk hr

theorem statement_sound : Sound room (Parser.statement inner) Language.statements := by
  refine .enter_bind (hin.statement.mono ?_)
  rintro _ c rest s ⟨d, rfl, o, h, ho⟩
  exact ⟨o, .stmt h, ho⟩

theorem expressionStatement_sound {D : Language Stmt}
    (h : ∀ {d ts e t} rest, Derives (.expr .expression e) d ts → t.kind = .semicolon →
      D d (ts ++ [t]) rest (.expr e)) : Sound room (Parser.expressionStatement inner) D :=
  .enter_bind <| (expression_sound hin).bind fun d ts _ e he => .require_bind fun t ht =>
    .pure fun rest => by simpa [Language.after] using h rest he ht

theorem initializer?_sound :
    Sound room (Parser.initializer? inner) (Phrase.language .initializer) := by
  refine .current_bind fun k => ?_
  split
  · exact .expect_bind fun t ht => (expression_sound hin).map fun d ts _ e he => by
      simpa [Language.after, Phrase.language] using Derives.initializer ht he
  · exact .pure fun _ => .noInitializer

theorem variableEnd_sound {a b : Token} {D : Language Stmt}
    (h : ∀ {d ts i t} rest, Derives (.initializer i) d ts → t.kind = .semicolon →
      D d (ts ++ [t]) rest (.var a b i)) : Sound room (Parser.variableEnd inner a b) D :=
  (initializer?_sound hin).bind fun d ts _ i hi => .require_bind fun t ht =>
    .pure fun rest => by simpa [Language.after] using h rest hi ht

omit hin in
theorem arrayEnd_sound {a b : Token} (ha : a.kind = .identifier) (hb : b.kind = .identifier) :
    Sound room (Parser.arrayEnd a b) (Language.forms.after 0 [a, b]) := by
  refine .expect_bind fun o ho => integer_sound.bind fun d c _ l h => ?_
  obtain ⟨rfl, rfl, hl⟩ := h
  refine .require_bind fun c hc => .require_bind fun t ht => .pure fun _ => ⟨false, ?_, by simp⟩
  simpa [Language.after] using Derives.array ha hb ho hl hc ht

theorem declaration_sound : Sound room (Parser.declaration inner) Language.forms := by
  refine .enter_bind <| .expect_bind fun a ha => .expect_bind fun b hb => .current_bind fun k => ?_
  rw [Language.after_after]
  split
  · exact arrayEnd_sound ha hb
  · refine variableEnd_sound hin fun rest hi ht => ⟨false, ?_, by simp⟩
    simpa using Derives.scalar ha hb hi ht

omit hin in
theorem emptyStatement_sound {D : Language Stmt}
    (h : ∀ {t} rest, t.kind = .semicolon → D 0 [t] rest .empty) :
    Sound room Parser.emptyStatement D :=
  .expect_bind fun _ ht => .pure fun rest => h rest ht

theorem forStart_sound : Sound room (Parser.forStart inner) (Phrase.language .start) := by
  have he : Sound room (Parser.expressionStatement inner) (Phrase.language .start) :=
    expressionStatement_sound hin fun _ he ht => .exprStart he ht
  have hv : Sound room (Parser.variableStart inner) (Phrase.language .start) :=
    .expect_bind fun a ha => .expect_bind fun b hb => variableEnd_sound hin fun _ hi ht => by
      simpa [Language.after, Phrase.language] using Derives.varStart ha hb hi ht
  have hs : Sound room (do
      if (← current) = .semicolon then emptyStatement else Parser.expressionStatement inner)
      (Phrase.language .start) := by
    refine .current_bind fun k => ?_
    split
    · exact emptyStatement_sound fun _ ht => .emptyStart ht
    · exact he
  refine .enter_bind fun ts => ⟨he.inhabited, ?_⟩
  rcases ts with _ | ⟨t, rest⟩
  · exact Sound.blames_end rfl he.inhabited.begins_nil
  by_cases ht : t.kind = .identifier
  · rcases rest with _ | ⟨u, rest⟩
    · rw [run_atDeclaration_bind_one _ ht]
      exact Sound.blames_end rfl ⟨_, [someToken .semicolon], [], _,
        .exprStart (.name (t := t) ht) rfl⟩
    · rw [run_atDeclaration_bind_two _ ht]
      split
      · exact (hv _).explains
      · exact (hs _).explains
  · rw [run_atDeclaration_bind_of_ne _ ht]
    exact (hs _).explains

theorem forLoop_sound : Sound room (Parser.forLoop inner) Language.forms := by
  refine .enter_bind <| .expect_bind fun w hw => .require_bind fun o ho =>
    (forStart_sound hin).bind fun d₀ ts₀ _ init hi => (expression_sound hin).bind
      fun d₁ ts₁ _ e he => .require_bind fun a ha => (expression_sound hin).bind
        fun d₂ ts₂ _ i hi' => .require_bind fun c hc => (statement_sound hin).bind_at ?_
  rintro d₃ ts₃ rest s ⟨t, hs, ht⟩
  refine Sound.pure_at ⟨t, ?_, ht⟩
  simpa [Language.after] using Derives.forLoop hw ho hi he ha hi' hc hs

def Language.conditions : Language Expr :=
  fun d ts _ e => ∃ o ts' c, ts = o :: (ts' ++ [c]) ∧ o.kind = .leftParen ∧
    Derives (.expr .expression e) d ts' ∧ c.kind = .rightParen

theorem condition_sound (word closed : Place) :
    Sound room (Parser.condition inner word closed) Language.conditions :=
  .require_bind fun o ho => (expression_sound hin).bind fun d ts _ e he =>
    .require_bind fun c hc => .pure fun _ =>
      ⟨o, ts, c, by simp, ho, by simpa [Phrase.language] using he, hc⟩

theorem whileLoop_sound : Sound room (Parser.whileLoop inner) Language.forms := by
  refine .enter_bind <| .expect_bind fun w hw => (condition_sound hin _ _).bind ?_
  rintro d _ _ e ⟨o, ts, c, rfl, ho, he, hc⟩
  refine (statement_sound hin).map ?_
  rintro d' ts' rest s ⟨t, hs, ht⟩
  exact ⟨t, by simpa [Language.after] using Derives.loop hw ho he hc hs, ht⟩

theorem conditional_sound : Sound room (Parser.conditional inner) Language.forms := by
  refine .enter_bind <| .expect_bind fun w hw => (condition_sound hin _ _).bind ?_
  rintro d _ _ e ⟨o, ts, c, rfl, ho, he, hc⟩
  refine (statement_sound hin).bind_at ?_
  rintro d' ts' rest s ⟨t, hs, ht⟩
  have hthen : Derives (.form true (.ifThen e s)) (max d d') (w :: o :: (ts ++ c :: ts')) :=
    .ifThen hw ho he hc hs
  refine ⟨⟨0, [], [], _, true, by simpa [Language.after] using hthen, by simp⟩, ?_⟩
  rw [run_current?_bind]
  split
  · next helse =>
    obtain rfl : t = false := by simpa [helse] using ht
    refine (Sound.expect_bind fun l hl => (statement_sound hin).map ?_ : Sound _ _ _) _ |>.explains
    rintro d'' ts'' rest s' ⟨t', hs', ht'⟩
    exact ⟨t', by simpa [Language.after] using Derives.ifElse hw ho he hc hs hl hs', ht'⟩
  · next helse =>
    exact (Sound.pure_at ⟨true, by simpa [Language.after] using hthen, fun _ => helse⟩ :
      SoundAt _ _ _ _).explains

theorem returned?_sound : Sound room (Parser.returned? inner) (Phrase.language .value) := by
  refine .current_bind fun k => ?_
  split
  · exact .pure fun _ => .noValue
  · exact (expression_sound hin).map fun _ _ _ _ he => .value he

theorem result_sound : Sound room (Parser.result inner) Language.forms :=
  .enter_bind <| .expect_bind fun k hk => (returned?_sound hin).bind fun d ts _ v hv =>
    .require_bind fun t ht => .pure fun _ => ⟨false, by
      simpa [Language.after] using Derives.result hk hv ht, by simp⟩

omit hin in
theorem insideBlock_sound : Sound room Parser.insideBlock Language.glance :=
  .current_bind fun _ => .pure fun _ => ⟨rfl, rfl⟩

theorem block_sound : Sound room (Parser.block inner) (Phrase.language .block) := by
  have hss : Sound room (many Parser.insideBlock (Parser.statement inner))
      (Phrase.language .stmts) := by
    refine .many insideBlock_sound (statement_sound hin) (fun _ => .noStmts) ?_
    rintro d c _ s d' c' _ ss ⟨o, hs, -⟩ hss
    exact .stmts hs hss
  refine .enter_bind <| .expect_bind fun o ho => hss.bind fun d ts _ ss h => .expect_bind
    fun c hc => .pure fun _ => ?_
  simpa [Language.after, Phrase.language] using Derives.block ho h hc

theorem dispatch_sound : Sound room (Parser.dispatch inner) Language.forms := by
  have he : Sound room (Parser.expressionStatement inner) Language.forms :=
    expressionStatement_sound hin fun _ he ht => ⟨false, .expr he ht, by simp⟩
  refine .current_bind_at he.inhabited fun t rest => ?_
  split
  · next ht =>
    rcases rest with _ | ⟨u, rest⟩
    · exact Sound.blames_end rfl ⟨_, [someToken .semicolon], [], _, false,
        .expr (.name (t := t) ht) rfl, by simp⟩
    · rw [run_following_cons_bind]
      split
      · exact (declaration_sound hin _).explains
      · exact (he _).explains
  · refine ((block_sound hin).map ?_ _).explains
    exact fun _ _ _ _ h => ⟨false, .blockForm h, by simp⟩
  · exact (emptyStatement_sound (fun _ ht => ⟨false, .empty ht, by simp⟩) _).explains
  · exact (forLoop_sound hin _).explains
  · exact (whileLoop_sound hin _).explains
  · exact (conditional_sound hin _).explains
  · exact (result_sound hin _).explains
  · exact (he _).explains

omit hin in
theorem param_sound : Sound room param fun d c _ p =>
    d = 0 ∧ c = [p.type, p.name] ∧ p.type.kind = .identifier ∧ p.name.kind = .identifier :=
  .expect_bind fun _ ha => .expect_bind fun _ hb => .pure fun _ => ⟨rfl, rfl, ha, hb⟩

omit hin in
theorem furtherParams_sound :
    Sound room (many Parser.atComma furtherParam) fun d c _ ps =>
      d = 0 ∧ Derives (.furtherParams ps) 0 c := by
  have hp : Sound room furtherParam fun d c _ p => d = 0 ∧ ∃ t, c = [t, p.type, p.name] ∧
      t.kind = .comma ∧ p.type.kind = .identifier ∧ p.name.kind = .identifier :=
    .expect_bind fun t ht => param_sound.mono fun d c _ p ⟨hd, hc, ha, hb⟩ =>
      ⟨by simp [hd], t, by simp [hc], ht, ha, hb⟩
  refine .many atComma_sound hp (fun _ => ⟨rfl, .noFurtherParams⟩) ?_
  rintro _ _ _ p _ c _ ps ⟨rfl, t, rfl, ht, ha, hb⟩ ⟨rfl, hps⟩
  exact ⟨rfl, .furtherParams ht ha hb hps⟩

omit hin in
theorem params_sound :
    Sound room params fun d c _ ps => d = 0 ∧ c ≠ [] ∧ Derives (.params ps) 0 c := by
  refine .enter_bind <| param_sound.bind fun d c _ p hp => furtherParams_sound.bind
    fun d' c' _ ps hps => ?_
  obtain ⟨rfl, rfl, ha, hb⟩ := hp
  obtain ⟨rfl, hps⟩ := hps
  exact .pure fun _ => ⟨rfl, by simp, by simpa using Derives.params ha hb hps⟩

omit hin in
theorem paramList_sound :
    Sound room paramList fun d c _ ps => d = 0 ∧ Derives (.params ps) 0 c := by
  refine .current_bind fun k => ?_
  split
  · exact .pure fun _ => ⟨rfl, .noParams⟩
  · exact params_sound.mono fun _ _ _ _ ⟨hd, _, hps⟩ => ⟨hd, hps⟩

theorem function_sound : Sound room (Parser.function inner) (Phrase.language .function) := by
  refine .enter_bind <| .expect_bind fun a ha => .expect_bind fun b hb => .expect_bind
    fun o ho => paramList_sound.bind ?_
  rintro _ ts _ ps ⟨rfl, hps⟩
  refine .expect_bind fun c hc => (block_sound hin).bind fun d ts' _ ss hss => .pure fun _ => ?_
  have hf : Derives (.function ⟨a, b, ps, ss⟩) d (a :: b :: o :: (ts ++ c :: ts')) :=
    .function ha hb ho hps hc hss
  simpa [Language.after, Phrase.language] using hf

theorem program_sound :
    Sound room (Parser.program inner) (Phrase.language fun p => .functions p.functions) := by
  have ht : Sound room moreTokens Language.glance := fun ts =>
    ⟨⟨0, [], [], true, rfl, rfl⟩, 0, [], Nat.zero_le _, rfl, rfl, rfl⟩
  have hfs : Sound room (many moreTokens (Parser.function inner)) (Phrase.language .functions) :=
    .many ht (function_sound hin) (fun _ => .noFunctions) fun _ _ _ _ _ _ _ _ => .functions
  exact .enter_bind <| hfs.bind fun d ts _ fs h => .pure fun _ => by
    simpa [Language.after, Phrase.language] using h

end Parser

/-- Whatever may still be nested, the parsers one level down derive what they read. -/
theorem Parser.inner_within (room : Nat) : Inner room (Nested.within room) := by
  induction room with
  | zero =>
    have hp : Derives (.expr .power (.var (someToken .identifier))) 0 [someToken .identifier] :=
      .tighter rfl (.var rfl)
    have ha : Derives (.expr .assignment (.var (someToken .identifier))) 0
        [someToken .identifier] :=
      .tighter rfl <| .tighter rfl <| .tighter rfl <| .tighter rfl <| .tighter rfl <|
        .tighter rfl hp
    exact ⟨.tooDeep ⟨1, _, [], _, 0, rfl, false, .empty (t := someToken .semicolon) rfl, by simp⟩,
      .tooDeep ⟨1, _, [], _, 0, rfl, ha⟩, .tooDeep ⟨1, _, [], _, 0, rfl, .tighter rfl hp⟩,
      .tooDeep ⟨1, _, [], _, 0, rfl, hp⟩⟩
  | succ room ih =>
    exact ⟨(dispatch_sound ih).deeper, (assignment_sound ih).deeper, (unary_sound ih).deeper,
      (power_sound ih).deeper⟩

end BraceLang.Grammar
