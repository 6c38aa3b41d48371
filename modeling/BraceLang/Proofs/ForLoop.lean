import BraceLang.Proofs.Recognition

/-!
# A `for` loop reads as the `while` loop that it stands for

Two functions with one statement in their body are set side by side: one has a `for` loop, the other
the blocks and the `while` loop that the grammar makes of it, written out. The parts of the loop are
the same tokens in both. They derive the same tree, and the `for` loop derives it with fewer levels
of nesting. So whatever program the longer form is read as, the shorter one is read as too; the
other way round, only the limit on nesting can come between.
-/

namespace BraceLang.Grammar

open BraceLang.Grammar.Parser (someToken)

inductive Slot where
  | tokens (ts : List Token)
  | mark (kind : Kind)

def Fills : List Slot → List Token → Prop
  | [], us => us = []
  | .tokens ts :: slots, us => ∃ vs, us = ts ++ vs ∧ Fills slots vs
  | .mark k :: slots, us => ∃ t vs, us = t :: vs ∧ t.kind = k ∧ Fills slots vs

def functionForm (type name : Token) (body : List Slot) : List Slot :=
  .tokens [type, name] :: .mark .leftParen :: .mark .rightParen :: .mark .leftBrace ::
    (body ++ [.mark .rightBrace])

/-- `for (start condition; increment) body` -/
def forForm (start condition increment body : List Token) : List Slot :=
  [.mark .reservedFor, .mark .leftParen, .tokens start, .tokens condition, .mark .semicolon,
    .tokens increment, .mark .rightParen, .tokens body]

/-- `{ start while (condition) { { body } increment; } }` -/
def whileForm (start condition increment body : List Token) : List Slot :=
  [.mark .leftBrace, .tokens start, .mark .reservedWhile, .mark .leftParen, .tokens condition,
    .mark .rightParen, .mark .leftBrace, .mark .leftBrace, .tokens body, .mark .rightBrace,
    .tokens increment, .mark .semicolon, .mark .rightBrace, .mark .rightBrace]

theorem Fills.of_append {slots slots' : List Slot} {us : List Token}
    (h : Fills (slots ++ slots') us) :
    ∃ vs ws, us = vs ++ ws ∧ Fills slots vs ∧ Fills slots' ws := by
  induction slots generalizing us with
  | nil => exact ⟨[], us, rfl, rfl, h⟩
  | cons slot slots ih =>
    cases slot with
    | tokens ts =>
      obtain ⟨xs, rfl, hxs⟩ := h
      obtain ⟨vs, ws, rfl, hvs, hws⟩ := ih hxs
      exact ⟨ts ++ vs, ws, (List.append_assoc ..).symm, ⟨vs, rfl, hvs⟩, hws⟩
    | mark k =>
      obtain ⟨t, xs, rfl, ht, hxs⟩ := h
      obtain ⟨vs, ws, rfl, hvs, hws⟩ := ih hxs
      exact ⟨t :: vs, ws, rfl, ⟨t, vs, rfl, ht, hvs⟩, hws⟩

/-- The marks of a function around its body. -/
theorem Fills.of_functionForm {type name : Token} {body : List Slot} {us : List Token}
    (h : Fills (functionForm type name body) us) : ∃ o c l bs r,
      us = type :: name :: o :: c :: l :: (bs ++ [r]) ∧ o.kind = .leftParen ∧
        c.kind = .rightParen ∧ l.kind = .leftBrace ∧ Fills body bs ∧ r.kind = .rightBrace := by
  obtain ⟨_, rfl, o, _, rfl, ho, c, _, rfl, hc, l, _, rfl, hl, hrest⟩ := h
  obtain ⟨bs, _, rfl, hbs, r, _, rfl, hr, rfl⟩ := hrest.of_append
  exact ⟨o, c, l, bs, r, rfl, ho, hc, hl, hbs, hr⟩

/-- A function without parameters is derived from the derivation of its body. -/
theorem Fills.derives_functionForm {type name : Token} {body : List Slot} {us : List Token}
    (h : Fills (functionForm type name body) us) (ht : type.kind = .identifier)
    (hn : name.kind = .identifier) :
    ∃ bs, Fills body bs ∧ ∀ ss d, Derives (.stmts ss) d bs →
      Derives (.functions [⟨type, name, [], ss⟩]) d us := by
  obtain ⟨o, c, l, bs, r, rfl, ho, hc, hl, hbs, hr⟩ := h.of_functionForm
  refine ⟨bs, hbs, fun ss d hss => ?_⟩
  have hblock : Derives (.block ss) d (l :: (bs ++ [r])) := .block hl hss hr
  have hf := Derives.function (f := ⟨type, name, [], ss⟩) ht hn ho .noParams hc hblock
  simpa using Derives.functions hf .noFunctions

/-- Where the list of parameters is closed at once there are none. -/
theorem Derives.eq_nil_of_params {ps : List Param} {d : Nat} {ts us vs : List Token} {c : Token}
    (h : Derives (.params ps) d ts) (hts : ts ++ us = c :: vs) (hc : c.kind = .rightParen) :
    ts = [] := by
  cases h with
  | noParams => rfl
  | params hp =>
    obtain ⟨rfl, -⟩ := List.cons.inj hts
    rw [hc] at hp
    cases hp

/-- The statements of a function are read from its body. -/
theorem Derives.stmts_of_functionForm {type name : Token} {body us : List Token} {g : Function}
    {d : Nat} (hus : Fills (functionForm type name [.tokens body]) us)
    (h : Derives (.function g) d us) :
    type.kind = .identifier ∧ name.kind = .identifier ∧ Derives (.stmts g.body) d body := by
  obtain ⟨o, c, l, _, r, hus, -, hc, -, ⟨_, rfl, rfl⟩, -⟩ := hus.of_functionForm
  cases h with
  | function ht hn _ hparams _ hblock =>
    simp only [List.cons.injEq] at hus
    obtain ⟨rfl, rfl, -, hus⟩ := hus
    obtain rfl := hparams.eq_nil_of_params hus hc
    obtain ⟨-, hus⟩ := List.cons.inj hus
    generalize hss : g.body = ss at hblock
    cases hblock with
    | block _ hstmts _ =>
      obtain ⟨-, hus⟩ := List.cons.inj hus
      obtain ⟨hbody, -⟩ := List.append_inj' hus rfl
      rw [List.append_nil] at hbody
      exact ⟨ht, hn, hbody ▸ hstmts⟩

theorem Derives.single_function {g : Function} {d : Nat} {ts : List Token}
    (h : Derives (.functions [g]) d ts) : ∃ d', Derives (.function g) d' ts := by
  cases h with
  | functions hg hnone =>
    cases hnone with
    | noFunctions => exact ⟨_, by simpa using hg⟩

theorem Derives.of_single_stmt {s : Stmt} {d : Nat} {ts : List Token}
    (h : Derives (.stmts [s]) d ts) : ∃ o d', Derives (.stmt o s) d' ts := by
  cases h with
  | stmts hs hnone =>
    cases hnone with
    | noStmts => exact ⟨_, _, by simpa using hs⟩

/-- The first clause of a `for` loop with its semicolon: nothing, an expression or a declaration of
a variable. -/
inductive LoopStart : List Token → Prop
  | empty {t} : t.kind = .semicolon → LoopStart [t]
  | expression {ts e t} : parseExpression ts = .ok e → t.kind = .semicolon → LoopStart (ts ++ [t])
  | declared {a b t} : a.kind = .identifier → b.kind = .identifier → t.kind = .semicolon →
      LoopStart [a, b, t]
  | initialized {a b q ts e t} : a.kind = .identifier → b.kind = .identifier → q.kind = .equals →
      parseExpression ts = .ok e → t.kind = .semicolon → LoopStart (a :: b :: q :: (ts ++ [t]))

theorem derives_of_parseExpression {ts : List Token} {e : Expr} (h : parseExpression ts = .ok e) :
    ∃ d, Derives (.expr .expression e) d ts := by
  obtain ⟨d, -, hd⟩ := (recognizes_parseExpression.ok_iff ts e).mp h
  exact ⟨d, hd⟩

/-- The first clause of a loop is a statement of its own as well, the same one and as deep. -/
theorem LoopStart.derives {ts : List Token} (h : LoopStart ts) :
    ∃ s d, Derives (.start s) d ts ∧ Derives (.form false s) d ts := by
  cases h with
  | empty ht => exact ⟨_, _, .emptyStart ht, .empty ht⟩
  | expression he ht =>
    obtain ⟨d, hd⟩ := derives_of_parseExpression he
    exact ⟨_, d, .exprStart hd ht, .expr hd ht⟩
  | declared ha hb ht =>
    exact ⟨_, _, .varStart ha hb .noInitializer ht, .scalar ha hb .noInitializer ht⟩
  | initialized ha hb hq he ht =>
    obtain ⟨d, hd⟩ := derives_of_parseExpression he
    have hinit := Derives.initializer hq hd
    exact ⟨_, d, .varStart ha hb hinit ht, .scalar ha hb hinit ht⟩

section Loop

variable {start condition increment body us : List Token} {init s : Stmt} {e i : Expr} {o : Bool}
  {d₀ d₁ d₂ d₃ : Nat}

theorem Derives.single_stmt {d : Nat} (h : Derives (.form o s) d us) :
    Derives (.stmts [s]) (d + 1) us := by
  simpa using Derives.stmts h.stmt .noStmts

theorem Derives.of_forForm (hus : Fills (forForm start condition increment body) us)
    (hstart : Derives (.start init) d₀ start) (hcond : Derives (.expr .expression e) d₁ condition)
    (hincr : Derives (.expr .expression i) d₂ increment) (hbody : Derives (.stmt o s) d₃ body) :
    Derives (.stmts [forAsWhile init e i s]) (max d₀ (max d₁ (max d₂ d₃)) + 1) us := by
  obtain ⟨w, _, rfl, hw, p, _, rfl, hp, _, rfl, _, rfl, a, _, rfl, ha, _, rfl, c, _, rfl, hc,
    _, rfl, rfl⟩ := hus
  have h := Derives.forLoop hw hp hstart hcond ha hincr hc hbody
  simpa using h.single_stmt

/-- Written out, the loop opens three levels more around its body and its increment. -/
theorem Derives.of_whileForm (hus : Fills (whileForm start condition increment body) us)
    (hstart : Derives (.form false init) d₀ start)
    (hcond : Derives (.expr .expression e) d₁ condition)
    (hincr : Derives (.expr .expression i) d₂ increment) (hbody : Derives (.stmt o s) d₃ body) :
    ∃ d ≥ max d₀ (max d₁ (max d₂ d₃)) + 1, Derives (.stmts [forAsWhile init e i s]) d us := by
  obtain ⟨l, _, rfl, hl, _, rfl, w, _, rfl, hw, p, _, rfl, hp, _, rfl, c, _, rfl, hc, l', _, rfl,
    hl', l'', _, rfl, hl'', _, rfl, r, _, rfl, hr, _, rfl, t, _, rfl, ht, r', _, rfl, hr', r'', _,
    rfl, hr'', rfl⟩ := hus
  have hinner := (Derives.blockForm (.block hl'' (.stmts hbody .noStmts) hr)).stmt
  have hstep := (Derives.expr hincr ht).single_stmt
  have hblock := (Derives.blockForm (.block hl' (.stmts hinner hstep) hr')).stmt
  have hloop := (Derives.loop hw hp hcond hc hblock).single_stmt
  have h := (Derives.blockForm (.block hl (.stmts hstart.stmt hloop) hr'')).single_stmt
  refine ⟨_, ?_, by simpa [forAsWhile] using h⟩
  omega

end Loop

/-- A function with a `for` loop and a function with the blocks and the `while` loop written out are
read as the same program, with the same tokens, if the latter can be read at all. Where only the
former can, the latter is nested too deeply. -/
theorem parse_for_as_while {type name : Token} {start condition increment body plain : List Token}
    {e i : Expr} {g : Function} {s : Stmt} (hstart : LoopStart start)
    (hcond : parseExpression condition = .ok e) (hincr : parseExpression increment = .ok i)
    (hplain : Fills (functionForm type name [.tokens body]) plain)
    (hg : parseProgram plain = .ok ⟨[g]⟩) (hs : g.body = [s]) {looped unrolled : List Token}
    (hlooped : Fills (functionForm type name (forForm start condition increment body)) looped)
    (hunrolled : Fills (functionForm type name (whileForm start condition increment body)) unrolled)
    (p : Program) :
    (parseProgram unrolled = .ok p → parseProgram looped = .ok p) ∧
    (parseProgram looped = .ok p → parseProgram unrolled = .ok p ∨
      ∃ err, parseProgram unrolled = .error err ∧ err.NestedTooDeeply) := by
  obtain ⟨init, d₀, hinit, hinit'⟩ := hstart.derives
  obtain ⟨d₁, hd₁⟩ := derives_of_parseExpression hcond
  obtain ⟨d₂, hd₂⟩ := derives_of_parseExpression hincr
  obtain ⟨d, -, hd⟩ := (recognizes_parseProgram.ok_iff _ _).mp hg
  obtain ⟨d', hd'⟩ := hd.single_function
  obtain ⟨ht, hn, hbody⟩ := hd'.stmts_of_functionForm hplain
  rw [hs] at hbody
  obtain ⟨o, d₃, hd₃⟩ := hbody.of_single_stmt
  obtain ⟨fs, hfs, hfor⟩ := hlooped.derives_functionForm ht hn
  obtain ⟨ws, hws, hwhile⟩ := hunrolled.derives_functionForm ht hn
  -- both have the same tree, and the longer form opens more levels
  replace hfor := hfor _ _ (Derives.of_forForm hfs hinit hd₁ hd₂ hd₃)
  obtain ⟨d₄, hle, hws⟩ := Derives.of_whileForm hws hinit' hd₁ hd₂ hd₃
  replace hwhile := hwhile _ _ hws
  constructor
  · intro hp
    obtain ⟨d₅, hd₅, hp⟩ := (recognizes_parseProgram.ok_iff _ _).mp hp
    obtain ⟨rfl, rfl⟩ := hp.program_unique hwhile
    exact (recognizes_parseProgram.ok_iff _ _).mpr ⟨_, Nat.le_trans hle hd₅, hfor⟩
  · intro hp
    obtain ⟨d₅, hd₅, hp⟩ := (recognizes_parseProgram.ok_iff _ _).mp hp
    obtain ⟨rfl, rfl⟩ := hp.program_unique hfor
    by_cases hd₄ : d₄ ≤ maxNesting
    · exact .inl ((recognizes_parseProgram.ok_iff _ _).mpr ⟨d₄, hd₄, hwhile⟩)
    · exact .inr (recognizes_parseProgram.tooDeep _ _ d₄ hwhile (Nat.lt_of_not_le hd₄))

def filled : List Slot → List Token
  | [] => []
  | .tokens ts :: slots => ts ++ filled slots
  | .mark k :: slots => someToken k :: filled slots

theorem fills_filled (slots : List Slot) : Fills slots (filled slots) := by
  induction slots with
  | nil => rfl
  | cons slot slots ih =>
    cases slot with
    | tokens ts => exact ⟨_, rfl, ih⟩
    | mark k => exact ⟨_, _, rfl, rfl, ih⟩

def someCounter : List Token :=
  [.identifier, .identifier, .equals, .identifier, .semicolon].map someToken

def someOpenIf : List Token :=
  [.reservedIf, .leftParen, .identifier, .rightParen, .identifier, .semicolon].map someToken

/-- A loop with a counter and with an `if` for its body. -/
theorem parse_for_as_while_counter :
    ∃ p, parseProgram (filled (functionForm (someToken .identifier) (someToken .identifier)
        (whileForm someCounter [someToken .identifier] [someToken .identifier] someOpenIf))) =
          .ok p ∧
      parseProgram (filled (functionForm (someToken .identifier) (someToken .identifier)
        (forForm someCounter [someToken .identifier] [someToken .identifier] someOpenIf))) =
          .ok p := by
  have hname : parseExpression [someToken .identifier] = .ok (.var (someToken .identifier)) := rfl
  have hstart : LoopStart someCounter :=
    @LoopStart.initialized _ _ _ [someToken .identifier] _ _ rfl rfl rfl hname rfl
  exact ⟨_, rfl, (parse_for_as_while hstart hname hname (fills_filled _) rfl rfl
    (fills_filled _) (fills_filled _) _).1 rfl⟩

end BraceLang.Grammar
