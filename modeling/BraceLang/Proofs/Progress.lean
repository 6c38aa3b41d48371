import BraceLang.Proofs.Levels
import BraceLang.Proofs.Steady

/-!
# Calls of a parser

A production is called somewhere in the tokens and on some level of nesting. Wherever that is, the
call never goes back and never passes the last token, it opens no level past the limit, and it is
back on its own level at the end, also if it fails. A call that succeeds has taken a token. So every
round of a loop takes a token, and no loop goes on forever.
-/

namespace BraceLang.Grammar

open BraceLang.Grammar.Parser

variable {α β : Type}

/-- The functions of the parser that always take a token if they succeed, over what is nested in
them. Those that may take none are parts of these, or the whole program. -/
inductive Called : {α : Type} → (Nested → Parser α) → Prop
  -- functions
  | function : Called Parser.function
  | params : Called fun _ => params
  -- statements
  | statement : Called statement
  | dispatch : Called dispatch
  | block : Called Parser.block
  | expressionStatement : Called expressionStatement
  | declaration : Called declaration
  | variableEnd (type name : Token) : Called (variableEnd · type name)
  | emptyStatement : Called fun _ => emptyStatement
  | forLoop : Called forLoop
  | forStart : Called forStart
  | whileLoop : Called whileLoop
  | conditional : Called conditional
  | condition (word closed : Place) : Called (condition · word closed)
  | result : Called Parser.result
  -- expressions
  | rung (r : Rung) : Called (r.parser ·)
  | integer : Called fun _ => integer
  | float : Called fun _ => float
  | string : Called fun _ => string
  | index : Called index
  | call : Called call

namespace Called

variable {p : Nested → Parser α}

theorem compares {R : Comparison} (hp : Called p) (hR : R.Closed) {inner inner' : Nested}
    (h : ComparesInner R inner inner') : Compares R (p inner) (p inner') := by
  cases hp with
  | function => exact compares_function hR h
  | params => exact compares_params hR
  | statement => exact compares_statement hR h
  | dispatch => exact compares_dispatch hR h
  | block => exact compares_block hR h
  | expressionStatement => exact compares_expressionStatement hR h
  | declaration => exact compares_declaration hR h
  | variableEnd type name => exact compares_variableEnd hR h type name
  | emptyStatement => exact compares_emptyStatement hR
  | forLoop => exact compares_forLoop hR h
  | forStart => exact compares_forStart hR h
  | whileLoop => exact compares_whileLoop hR h
  | conditional => exact compares_conditional hR h
  | condition word closed => exact compares_condition hR h word closed
  | result => exact compares_result hR h
  | rung r =>
    cases r with
    | expression => exact compares_expression hR h
    | assignment => exact compares_assignment hR h
    | equality => exact compares_equality hR h
    | comparison => exact compares_comparison hR h
    | sum => exact compares_sum hR h
    | product => exact compares_product hR h
    | unary => exact compares_unary hR h
    | power => exact compares_power hR h
    | atom => exact compares_atom hR h
  | integer => exact compares_integer hR
  | float => exact compares_float hR
  | string => exact compares_string hR
  | index => exact compares_index hR h
  | call => exact compares_call hR h

/-- What is read has a first token. -/
theorem sound {room : Nat} {inner : Nested} (hp : Called p) (hin : Inner room inner) :
    ∃ D : Language α, Sound room (p inner) D ∧ ∀ d c rest a, D d c rest a → c ≠ [] := by
  have hforms : ∀ d c rest s, Language.forms d c rest s → c ≠ [] :=
    fun d c rest s ⟨_, h, _⟩ => h.ne_nil rfl
  have hexpr (r : Rung) : ∀ d c rest e, Phrase.language (.expr r) d c rest e → c ≠ [] :=
    fun d c rest e h => Derives.ne_nil h rfl
  cases hp with
  | function => exact ⟨_, function_sound hin, fun d c rest f h => Derives.ne_nil h rfl⟩
  | params => exact ⟨_, params_sound, fun d c rest ps h => h.2.1⟩
  | statement => exact ⟨_, statement_sound hin, fun d c rest s ⟨_, h, _⟩ => h.ne_nil rfl⟩
  | dispatch => exact ⟨_, dispatch_sound hin, hforms⟩
  | block => exact ⟨_, block_sound hin, fun d c rest ss h => Derives.ne_nil h rfl⟩
  | expressionStatement =>
    exact ⟨_, expressionStatement_sound hin fun _ he ht => ⟨false, .expr he ht, by simp⟩, hforms⟩
  | declaration => exact ⟨_, declaration_sound hin, hforms⟩
  | variableEnd type name =>
    exact ⟨fun d c rest s => c ≠ [], variableEnd_sound hin fun rest _ _ => by simp,
      fun d c rest s h => h⟩
  | emptyStatement =>
    exact ⟨_, emptyStatement_sound fun _ ht => ⟨false, .empty ht, by simp⟩, hforms⟩
  | forLoop => exact ⟨_, forLoop_sound hin, hforms⟩
  | forStart => exact ⟨_, forStart_sound hin, fun d c rest s h => Derives.ne_nil h rfl⟩
  | whileLoop => exact ⟨_, whileLoop_sound hin, hforms⟩
  | conditional => exact ⟨_, conditional_sound hin, hforms⟩
  | condition word closed =>
    refine ⟨_, condition_sound hin word closed, ?_⟩
    rintro d _ rest e ⟨o, ts, c, rfl, -⟩
    exact List.cons_ne_nil _ _
  | result => exact ⟨_, result_sound hin, hforms⟩
  | rung r => exact ⟨_, r.parser_sound hin, hexpr r⟩
  | integer =>
    refine ⟨_, integer_sound, ?_⟩
    rintro d _ rest l ⟨-, rfl, -⟩
    exact List.cons_ne_nil _ _
  | float => exact ⟨_, float_sound, hexpr .atom⟩
  | string => exact ⟨_, string_sound, hexpr .atom⟩
  | index => exact ⟨_, index_sound hin, hexpr .atom⟩
  | call => exact ⟨_, call_sound hin, hexpr .atom⟩

theorem progresses (hp : Called p) (room : Nat) : Progresses (p (.within room)) := by
  obtain ⟨D, hD, hne⟩ := hp.sound (inner_within room)
  exact hD.progresses hne

theorem rest_suffix (hp : Called p) (room : Nat) (ts : List Token) :
    (p (.within room) ts).rest <:+ ts := by
  obtain ⟨D, hD, -⟩ := hp.sound (inner_within room)
  exact hD.trims.suffix ts

end Called

/-- Before a token of a list or past the last one, on some level of nesting. -/
structure Stand (ts : List Token) where
  position : Nat
  level : Nat
  position_le : position ≤ ts.length
  level_le : level ≤ maxNesting

namespace Stand

variable {ts : List Token}

def call (s : Stand ts) (p : Nested → Parser α) : Outcome α :=
  p (.within (maxNesting - s.level)) (ts.drop s.position)

/-- The call comes to an end in the tokens, not before the place where it started, and past that
place if it succeeds. Meanwhile it is never past the limit, and afterwards on the level it started
from. -/
structure Advances (s : Stand ts) (o : Outcome α) : Prop where
  returns : levelAfter? maxNesting s.level o.steps = some s.level
  bounded : ∀ before, before <+: o.steps →
    ∃ level, level ≤ maxNesting ∧ levelAfter? maxNesting s.level before = some level
  moves : ∃ position, s.position ≤ position ∧ position ≤ ts.length ∧ o.rest = ts.drop position ∧
    ∀ a, o.result = .ok a → s.position < position

theorem advances {p : Nested → Parser α} (hp : Called p) (s : Stand ts) :
    s.Advances (s.call p) := by
  have hlevelled : Levelled (maxNesting - s.level) (s.call p) :=
    hp.compares (closed_levelledWithin _) (levelledInner_within _) _
  -- what may still be opened is what is missing to the limit
  have hreturns := hlevelled.returns s.level
  rw [Nat.add_sub_cancel' s.level_le] at hreturns
  have hsuffix : (s.call p).rest <:+ ts.drop s.position := hp.rest_suffix _ _
  have hlength := hsuffix.length_le
  rw [List.length_drop] at hlength
  have hposition := s.position_le
  refine ⟨hreturns, fun before hbefore => exists_levelAfter?_of_prefix s.level_le hreturns hbefore,
    ts.length - (s.call p).rest.length, by omega, Nat.sub_le _ _, ?_, fun a ha => ?_⟩
  · exact List.suffix_iff_eq_drop.mp (hsuffix.trans (List.drop_suffix _ _))
  · have hshorter := hp.progresses (maxNesting - s.level) (Prod.ext ha rfl)
    rw [List.length_drop] at hshorter
    change (s.call p).rest.length < _ at hshorter
    omega

end Stand

/-- A loop over what is nested in it. A round of it gives an item, after which the loop goes on, or
it gives nothing, and the loop ends with a value. -/
structure Loop (α γ : Type) where
  whole : Nested → Parser γ
  round : Nested → Parser (Option α)
  onward : Nested → α → Parser γ
  value : γ

namespace Loop

variable {γ : Type}

def unrolled (l : Loop α γ) (inner : Nested) : Parser γ := do
  match ← l.round inner with
  | none => pure l.value
  | some a => l.onward inner a

def items (test : Parser Bool) (item : Nested → Parser α) : Loop α (List α) where
  whole inner := many test (item inner)
  round inner := do if ← test then some <$> item inner else pure none
  onward inner a := (a :: ·) <$> many test (item inner)
  value := []

def operators (r r' : Rung) (lhs : Expr) : Loop (BinaryOp × Token × Expr) Expr where
  whole inner := extend r.leftOp? (r'.parser inner) .binary lhs
  round inner := do
    match ← accept? r.leftOp? with
    | none => pure none
    | some (op, t) => (fun rhs => some (op, t, rhs)) <$> r'.parser inner
  onward inner := fun (op, t, rhs) =>
    extend r.leftOp? (r'.parser inner) .binary (.binary op t lhs rhs)
  value := lhs

/-- The loop is its own unrolling, and a round of it that gives an item takes a token. -/
structure Advances (l : Loop α γ) (inner : Nested) (ts : List Token) : Prop where
  unrolls : run (l.whole inner) ts = run (l.unrolled inner) ts
  length_lt : ∀ {a rest}, run (l.round inner) ts = (.ok (some a), rest) → rest.length < ts.length

theorem items_advances {test : Parser Bool} {item : Nested → Parser α} {inner : Nested}
    (ht : Looks test) (hi : Progresses (item inner)) (ts : List Token) :
    (items test item).Advances inner ts where
  unrolls := by
    change run (many test (item inner)) ts = _
    rw [run_many ht hi, Parser.round, unrolled, items, run_bind_assoc, run_bind, run_bind]
    rcases run test ts with ⟨e | b, rest⟩
    · rfl
    cases b with
    | false => rfl
    | true =>
      simp only [if_true]
      rw [run_bind, run_bind, run_map, run_bind]
      rcases run (item inner) rest with ⟨e | a, later⟩ <;> rfl
  length_lt {a rest} h := by
    rw [items, run_bind] at h
    rcases htest : run test ts with ⟨e | b, left⟩ <;> rw [htest] at h
    · cases h
    obtain rfl : left = ts := by simpa [htest] using ht.keeps ts
    cases b with
    | false => cases h
    | true =>
      simp only [if_true] at h
      rw [run_map, run_bind] at h
      rcases hitem : run (item inner) left with ⟨e | a', later⟩ <;> rw [hitem] at h
      · cases h
      · cases h
        exact hi hitem

theorem operators_advances {r r' : Rung} {inner : Nested} (lhs : Expr)
    (ho : Progresses (r'.parser inner)) (ts : List Token) :
    (operators r r' lhs).Advances inner ts where
  unrolls := by
    change run (extend r.leftOp? (r'.parser inner) .binary lhs) ts = _
    rw [run_extend ho, joined, unrolled, operators, run_bind_assoc, run_bind, run_bind]
    rcases run (accept? r.leftOp?) ts with ⟨e | _ | op, rest⟩
    · rfl
    · rfl
    · simp only []
      rw [run_bind, run_bind, run_map, run_bind]
      rcases run (r'.parser inner) rest with ⟨e | rhs, later⟩ <;> rfl
  length_lt {a rest} h := by
    rw [operators] at h
    cases ts with
    | nil => cases h
    | cons t ts =>
      cases hop : r.leftOp? t.kind with
      | none =>
        rw [run_accept?_bind_of_none _ hop] at h
        cases h
      | some op =>
        rw [run_accept?_bind_of_some _ hop, run_map, run_bind] at h
        rcases hrun : run (r'.parser inner) ts with ⟨e | rhs, later⟩ <;> rw [hrun] at h
        · cases h
        · cases h
          exact Nat.lt_succ_of_lt (ho hrun)

inductive Used : {α γ : Type} → Loop α γ → Prop
  | functions : Used (items moreTokens Parser.function)
  | furtherParams : Used (items atComma fun _ => furtherParam)
  | statements : Used (items insideBlock statement)
  | furtherArguments : Used (items atComma furtherArgument)
  | operators {r r' : Rung} (h : r.tighter? = some r') (lhs : Expr) : Used (operators r r' lhs)

theorem Used.advances {l : Loop α γ} (h : l.Used) (room : Nat) (ts : List Token) :
    l.Advances (.within room) ts := by
  cases h with
  | functions =>
    exact items_advances looks_moreTokens (Phrase.Parsed.function_progresses room) ts
  | furtherParams => exact items_advances looks_atComma Phrase.Parsed.furtherParam_progresses ts
  | statements =>
    exact items_advances looks_insideBlock (Phrase.Parsed.statement_progresses room) ts
  | furtherArguments =>
    exact items_advances looks_atComma (Phrase.Parsed.furtherArgument_progresses room) ts
  | @operators r r' _ lhs =>
    exact operators_advances lhs (r'.parser_progresses (inner_within room)) ts

end Loop

/-- Wherever a production is called, it comes to an end further to the right or it fails, and it is
back on its level. So each round of a loop takes a token. -/
theorem calls_advance {ts : List Token} (s : Stand ts) :
    (∀ {α : Type} {p : Nested → Parser α}, Called p → s.Advances (s.call p)) ∧
    ∀ {α γ : Type} {l : Loop α γ}, l.Used →
      (s.call l.whole).result = (s.call l.unrolled).result ∧
      (s.call l.whole).rest = (s.call l.unrolled).rest ∧
      ∀ {a : α}, (s.call l.round).result = .ok (some a) →
        (s.call l.round).rest.length < (ts.drop s.position).length := by
  refine ⟨fun hp => Stand.advances hp s, fun hl => ?_⟩
  have h := hl.advances (maxNesting - s.level) (ts.drop s.position)
  exact ⟨congrArg Prod.fst h.unrolls, congrArg Prod.snd h.unrolls,
    fun ha => h.length_lt (Prod.ext ha rfl)⟩

def threeSigns : List Token :=
  [.semicolon, .minus, .minus, .minus, .identifier, .semicolon].map someToken

/-- The statement behind the semicolon needs five levels. With four left it fails behind its third
sign, and with five it is read, also in a round of the loop over statements. -/
theorem calls_advance_threeSigns :
    let s : Stand threeSigns := ⟨1, 252, by decide, by decide⟩
    let s' : Stand threeSigns := ⟨1, 251, by decide, by decide⟩
    (s.call statement).result = .error ⟨.tooDeep .expression, some (someToken .identifier)⟩ ∧
    levelAfter? maxNesting 252 (s.call statement).steps = some 252 ∧
    (∃ position, 1 < position ∧ position ≤ threeSigns.length ∧
      (s'.call statement).rest = threeSigns.drop position) ∧
    (s'.call (Loop.items insideBlock statement).round).rest.length < 5 := by
  intro s s'
  obtain ⟨-, -, hround⟩ := (calls_advance s').2 .statements
  obtain ⟨position, -, hle, hrest, hlt⟩ := ((calls_advance s').1 .statement).moves
  exact ⟨rfl, ((calls_advance s).1 .statement).returns, ⟨position, hlt _ rfl, hle, hrest⟩,
    hround rfl⟩

end BraceLang.Grammar
