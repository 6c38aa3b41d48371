import BraceLang.Grammar.Statement

/-!
# Parsers without their steps

`Parser.run` keeps the answer of a parser and the tokens it leaves, and drops the steps. Entering a
production and changing the level then change nothing, so a production runs like the sequence of its
parts. A repetition whose rounds use up tokens runs like its own unrolling (`run_many`,
`run_extend`): the list that bounds the rounds is never the reason why it stops.
-/

namespace BraceLang.Grammar.Parser

variable {α β : Type}

def run (p : Parser α) (ts : List Token) : Except Failure α × List Token :=
  ((p ts).result, (p ts).rest)

theorem run_bind (p : Parser α) (f : α → Parser β) (ts : List Token) :
    run (p >>= f) ts =
      match run p ts with
      | (.ok a, rest) => run (f a) rest
      | (.error e, rest) => (.error e, rest) := by
  rcases h : p ts with ⟨result, rest, steps⟩
  cases result with
  | ok a => simp only [run, bind_apply_of_ok f h, h]
  | error e => simp only [run, bind_apply_of_error f h, h]

theorem run_bind_of_ok {p : Parser α} {ts rest : List Token} {a : α} (f : α → Parser β)
    (h : run p ts = (.ok a, rest)) : run (p >>= f) ts = run (f a) rest := by
  rw [run_bind, h]

theorem run_bind_of_error {p : Parser α} {ts rest : List Token} {e : Failure} (f : α → Parser β)
    (h : run p ts = (.error e, rest)) : run (p >>= f) ts = (.error e, rest) := by
  rw [run_bind, h]

theorem run_map (f : α → β) (p : Parser α) (ts : List Token) :
    run (f <$> p) ts = run (p >>= fun a => pure (f a)) ts := by
  rw [run_bind]
  rcases h : p ts with ⟨result, rest, steps⟩
  cases result <;> simp [run, h, Except.map]

theorem run_bind_congr {p q : Parser α} {ts : List Token} (h : run p ts = run q ts)
    (f : α → Parser β) : run (p >>= f) ts = run (q >>= f) ts := by
  rw [run_bind, run_bind, h]

theorem run_bind_pure (p : Parser α) (ts : List Token) : run (p >>= pure) ts = run p ts := by
  rw [run_bind]
  rcases run p ts with ⟨e | a, rest⟩ <;> rfl

theorem run_bind_assoc {γ : Type} (p : Parser α) (f : α → Parser β) (g : β → Parser γ)
    (ts : List Token) : run (p >>= f >>= g) ts = run (p >>= fun a => f a >>= g) ts := by
  rw [run_bind, run_bind, run_bind]
  rcases run p ts with ⟨e | a, mid⟩
  · rfl
  · simp only [run_bind]

@[simp] theorem run_pure (a : α) (ts : List Token) : run (pure a : Parser α) ts = (.ok a, ts) := rfl

@[simp] theorem run_enter_bind (rule : Production) (f : Unit → Parser β) (ts : List Token) :
    run (enter rule >>= f) ts = run (f ()) ts :=
  run_bind_of_ok f rfl

@[simp] theorem run_deeper (p : Parser α) (ts : List Token) : run p.deeper ts = run p ts := rfl

@[simp] theorem run_fail (cause : Cause) (ts : List Token) :
    run (fail cause : Parser α) ts = (.error ⟨cause, ts.head?⟩, ts) := rfl

@[simp] theorem run_failAt (token : Option Token) (cause : Cause) (ts : List Token) :
    run (failAt token cause : Parser α) ts = (.error ⟨cause, token⟩, ts) := rfl

@[simp] theorem run_take_nil (expected : Kind) (cause : Kind → Cause) :
    run (take expected cause) [] = (.error ⟨.endOfInput, none⟩, []) := rfl

theorem run_take_of_kind {t : Token} (rest : List Token) {expected : Kind} (cause : Kind → Cause)
    (h : t.kind = expected) : run (take expected cause) (t :: rest) = (.ok t, rest) := by
  rw [run, take_of_kind rest cause h]

theorem run_take_of_ne {t : Token} (rest : List Token) {expected : Kind} (cause : Kind → Cause)
    (h : t.kind ≠ expected) :
    run (take expected cause) (t :: rest) = (.error ⟨cause t.kind, some t⟩, t :: rest) := by
  rw [run, take, if_neg h]
  rfl

theorem run_take_bind {t : Token} {rest : List Token} {expected : Kind} {cause : Kind → Cause}
    (f : Token → Parser β) (h : t.kind = expected) :
    run (take expected cause >>= f) (t :: rest) = run (f t) rest :=
  run_bind_of_ok f (run_take_of_kind rest cause h)

theorem run_expect_bind {t : Token} {rest : List Token} {expected : Kind} (f : Token → Parser β)
    (h : t.kind = expected) : run (expect expected >>= f) (t :: rest) = run (f t) rest :=
  run_take_bind f h

theorem run_require_bind {t : Token} {rest : List Token} {expected : Kind} {place : Place}
    (f : Token → Parser β) (h : t.kind = expected) :
    run (require expected place >>= f) (t :: rest) = run (f t) rest :=
  run_take_bind f h

@[simp] theorem run_current?_bind (f : Option Kind → Parser β) (ts : List Token) :
    run (current? >>= f) ts = run (f (ts.head?.map Token.kind)) ts :=
  run_bind_of_ok f rfl

@[simp] theorem run_following?_bind (f : Option Kind → Parser β) (ts : List Token) :
    run (following? >>= f) ts = run (f (ts[1]?.map Token.kind)) ts :=
  run_bind_of_ok f rfl

@[simp] theorem run_current_nil_bind (f : Kind → Parser β) :
    run (current >>= f) [] = (.error ⟨.endOfInput, none⟩, []) :=
  run_bind_of_error f rfl

@[simp] theorem run_current_cons_bind (f : Kind → Parser β) (t : Token) (rest : List Token) :
    run (current >>= f) (t :: rest) = run (f t.kind) (t :: rest) :=
  run_bind_of_ok f rfl

@[simp] theorem run_following_one_bind (f : Kind → Parser β) (t : Token) :
    run (following >>= f) [t] = (.error ⟨.endOfInput, some t⟩, [t]) :=
  run_bind_of_error f rfl

@[simp] theorem run_following_cons_bind (f : Kind → Parser β) (t u : Token) (rest : List Token) :
    run (following >>= f) (t :: u :: rest) = run (f u.kind) (t :: u :: rest) :=
  run_bind_of_ok f rfl

@[simp] theorem run_accept?_nil_bind {γ : Type} (table : Kind → Option γ)
    (f : Option (γ × Token) → Parser β) : run (accept? table >>= f) [] = run (f none) [] :=
  run_bind_of_ok f rfl

theorem run_accept?_bind_of_some {γ : Type} {table : Kind → Option γ} {op : γ} {t : Token}
    {rest : List Token} (f : Option (γ × Token) → Parser β) (h : table t.kind = some op) :
    run (accept? table >>= f) (t :: rest) = run (f (some (op, t))) rest := by
  apply run_bind_of_ok
  simp only [run, accept?, h]

theorem run_accept?_bind_of_none {γ : Type} {table : Kind → Option γ} {t : Token}
    {rest : List Token} (f : Option (γ × Token) → Parser β) (h : table t.kind = none) :
    run (accept? table >>= f) (t :: rest) = run (f none) (t :: rest) := by
  apply run_bind_of_ok
  simp only [run, accept?, h]

theorem run_accept?_bind_of_forall {γ : Type} {table : Kind → Option γ} {ts : List Token}
    (f : Option (γ × Token) → Parser β) (h : ∀ t ∈ ts.head?, table t.kind = none) :
    run (accept? table >>= f) ts = run (f none) ts := by
  cases ts with
  | nil => exact run_accept?_nil_bind table f
  | cons t rest => exact run_accept?_bind_of_none f (h t rfl)

@[simp] theorem run_atDeclaration_bind_nil (f : Bool → Parser β) :
    run (atDeclaration >>= f) [] = (.error ⟨.endOfInput, none⟩, []) :=
  run_bind_of_error f rfl

theorem run_atDeclaration_bind_one {t : Token} (f : Bool → Parser β) (h : t.kind = .identifier) :
    run (atDeclaration >>= f) [t] = (.error ⟨.endOfInput, some t⟩, [t]) := by
  apply run_bind_of_error
  rw [atDeclaration, run_current_cons_bind, if_pos h, run_following_one_bind]

theorem run_atDeclaration_bind_two {t u : Token} {rest : List Token} (f : Bool → Parser β)
    (h : t.kind = .identifier) :
    run (atDeclaration >>= f) (t :: u :: rest) =
      run (f (u.kind = .identifier)) (t :: u :: rest) := by
  apply run_bind_of_ok
  rw [atDeclaration, run_current_cons_bind, if_pos h, run_following_cons_bind, run_pure]

theorem run_atDeclaration_bind_of_ne {t : Token} {rest : List Token} (f : Bool → Parser β)
    (h : t.kind ≠ .identifier) :
    run (atDeclaration >>= f) (t :: rest) = run (f false) (t :: rest) := by
  apply run_bind_of_ok
  rw [atDeclaration, run_current_cons_bind, if_neg h, run_pure]

/-- A parser that leaves less than it was given whenever it succeeds. -/
def Progresses (p : Parser α) : Prop :=
  ∀ ⦃ts a rest⦄, run p ts = (.ok a, rest) → rest.length < ts.length

/-- A test that only looks, and that does not ask for a further item past the end. -/
structure Looks (test : Parser Bool) : Prop where
  keeps : ∀ ts, (run test ts).2 = ts
  stops : (run test []).1 ≠ .ok true

def round (test : Parser Bool) (item : Parser α) (more : Parser (List α)) : Parser (List α) := do
  if ← test then
    let a ← item
    (a :: ·) <$> more
  else pure []

/-- The rounds after the first only matter on what the first one leaves. -/
theorem run_round_congr {test : Parser Bool} {item : Parser α} {more more' : Parser (List α)}
    (ht : Looks test) (hi : Progresses item) {ts : List Token}
    (h : ∀ rest : List Token, rest.length < ts.length → run more rest = run more' rest) :
    run (round test item more) ts = run (round test item more') ts := by
  rw [round, round, run_bind, run_bind]
  rcases htest : run test ts with ⟨_ | b, rest⟩
  · rfl
  obtain rfl : rest = ts := by simpa [htest] using ht.keeps ts
  cases b with
  | false => rfl
  | true =>
    simp only [if_true]
    rw [run_bind, run_bind]
    rcases hitem : run item rest with ⟨_ | a, later⟩
    · rfl
    · simp only [run_map, run_bind, h later (hi hitem)]

theorem run_round_nil {test : Parser Bool} {item : Parser α} (more : Parser (List α))
    (ht : Looks test) : run (round test item more) [] = run (test >>= fun _ => pure []) [] := by
  rw [round, run_bind, run_bind]
  rcases htest : run test [] with ⟨_ | b, rest⟩
  · rfl
  · obtain rfl : b = false := by simpa [htest] using ht.stops
    rfl

/-- Any bound that is as long as the input gives the same run. -/
theorem run_manyUpTo_eq {test : Parser Bool} {item : Parser α} (ht : Looks test)
    (hi : Progresses item) {bound bound' ts : List Token} (h : ts.length ≤ bound.length)
    (h' : ts.length ≤ bound'.length) :
    run (manyUpTo test item bound) ts = run (manyUpTo test item bound') ts := by
  induction bound generalizing bound' ts with
  | nil =>
    obtain rfl : ts = [] := List.length_eq_zero_iff.mp (Nat.le_zero.mp h)
    cases bound' with
    | nil => rfl
    | cons u bound' => exact (run_round_nil _ ht).symm
  | cons u bound ih =>
    cases bound' with
    | nil =>
      obtain rfl : ts = [] := List.length_eq_zero_iff.mp (Nat.le_zero.mp h')
      exact run_round_nil _ ht
    | cons u' bound' =>
      refine run_round_congr ht hi fun rest hrest => ?_
      simp only [List.length_cons] at h h'
      exact ih (by omega) (by omega)

/-- A repetition is its own unrolling. -/
theorem run_many {test : Parser Bool} {item : Parser α} (ht : Looks test) (hi : Progresses item)
    (ts : List Token) : run (many test item) ts = run (round test item (many test item)) ts := by
  cases ts with
  | nil => exact (run_round_nil _ ht).symm
  | cons t rest =>
    change run (round test item (manyUpTo test item rest)) (t :: rest) = _
    refine run_round_congr ht hi fun later hlater => ?_
    simp only [List.length_cons] at hlater
    exact run_manyUpTo_eq ht hi (by omega) (Nat.le_refl _)

def joined (table : Kind → Option β) (operand : Parser α) (join : β → Token → α → α → α)
    (onward : α → Parser α) (lhs : α) : Parser α := do
  match ← accept? table with
  | none => pure lhs
  | some (op, t) =>
    let rhs ← operand
    onward (join op t lhs rhs)

theorem run_joined_congr {table : Kind → Option β} {operand : Parser α}
    {join : β → Token → α → α → α} {onward onward' : α → Parser α} (ho : Progresses operand)
    {lhs : α} {ts : List Token}
    (h : ∀ (a : α) (rest : List Token), rest.length < ts.length →
      run (onward a) rest = run (onward' a) rest) :
    run (joined table operand join onward lhs) ts =
      run (joined table operand join onward' lhs) ts := by
  cases ts with
  | nil => rfl
  | cons t rest =>
    rw [joined, joined]
    cases htable : table t.kind with
    | none => rw [run_accept?_bind_of_none _ htable, run_accept?_bind_of_none _ htable]
    | some op =>
      rw [run_accept?_bind_of_some _ htable, run_accept?_bind_of_some _ htable]
      simp only [run_bind]
      rcases hrun : run operand rest with ⟨_ | a, later⟩
      · rfl
      · have hlt := ho hrun
        exact h _ _ (Nat.lt_succ_of_lt hlt)

theorem run_extendUpTo_eq {table : Kind → Option β} {operand : Parser α}
    {join : β → Token → α → α → α} (ho : Progresses operand) {bound bound' ts : List Token}
    {lhs : α} (h : ts.length ≤ bound.length) (h' : ts.length ≤ bound'.length) :
    run (extendUpTo table operand join bound lhs) ts =
      run (extendUpTo table operand join bound' lhs) ts := by
  induction bound generalizing bound' ts lhs with
  | nil =>
    obtain rfl : ts = [] := List.length_eq_zero_iff.mp (Nat.le_zero.mp h)
    cases bound' <;> rfl
  | cons u bound ih =>
    cases bound' with
    | nil =>
      obtain rfl : ts = [] := List.length_eq_zero_iff.mp (Nat.le_zero.mp h')
      rfl
    | cons u' bound' =>
      refine run_joined_congr ho fun a rest hrest => ?_
      simp only [List.length_cons] at h h'
      exact ih (by omega) (by omega)

/-- Extending to the right is one step and then the same again. -/
theorem run_extend {table : Kind → Option β} {operand : Parser α} {join : β → Token → α → α → α}
    (ho : Progresses operand) (lhs : α) (ts : List Token) :
    run (extend table operand join lhs) ts =
      run (joined table operand join (extend table operand join) lhs) ts := by
  cases ts with
  | nil => rfl
  | cons t rest =>
    change run (joined table operand join (extendUpTo table operand join rest) lhs) (t :: rest) = _
    refine run_joined_congr ho fun a later hlater => ?_
    simp only [List.length_cons] at hlater
    exact run_extendUpTo_eq ho (by omega) (Nat.le_refl _)

end BraceLang.Grammar.Parser
