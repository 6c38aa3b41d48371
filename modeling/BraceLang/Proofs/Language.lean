import BraceLang.Grammar.Session
import BraceLang.Proofs.Derivation
import BraceLang.Proofs.Run

/-!
# What a run says about the grammar

`Sound room p D` says of every run of `p` that it is explained by the language `D`: a value that it
gives is a sentence at the front of the tokens, with at most `room` levels of nesting, and an error
that it stops with stands behind a beginning of a sentence. The other tokens count as well, because
a test such as `current` reads a token that it leaves.

The statement is kept by sequences, choices and repetitions. In a sequence the second part is
explained by the sentences that go on from what the first part took (`Language.after`). So each
production is explained by putting its parts together, with errors and depths in one go.
-/

namespace BraceLang.Grammar

/-- Levels of nesting, tokens that open so many levels, tokens behind them, and the value that the
former are read as. -/
abbrev Language (α : Type) : Type :=
  Nat → List Token → List Token → α → Prop

namespace Language

variable {α : Type}

/-- What may follow tokens that are already read and opened some levels. -/
def after (D : Language α) (d : Nat) (c : List Token) : Language α :=
  fun d' c' rest a => D (max d d') (c ++ c') rest a

def deeper (D : Language α) : Language α :=
  fun d c rest a => ∃ d', d = d' + 1 ∧ D d' c rest a

def Inhabited (D : Language α) : Prop :=
  ∃ d c rest a, D d c rest a

/-- Some way to go on makes a sentence of the tokens. -/
def Begins (D : Language α) (c : List Token) : Prop :=
  ∃ d z rest a, D d (c ++ z) rest a

theorem Inhabited.begins_nil {D : Language α} (h : D.Inhabited) : D.Begins [] := h

theorem after_after (D : Language α) (d d' : Nat) (c c' : List Token) :
    (D.after d c).after d' c' = D.after (max d d') (c ++ c') := by
  funext d'' c'' rest a
  simp only [after, Nat.max_assoc, List.append_assoc]

@[simp] theorem after_zero_nil (D : Language α) : D.after 0 [] = D := by
  funext d c rest a
  simp [after]

end Language

abbrev headKind? (ts : List Token) : Option Kind :=
  ts.head?.map Token.kind

def Phrase.language {α : Type} (P : α → Phrase) : Language α :=
  fun d c _ a => Derives (P a) d c

def Language.glance : Language Bool :=
  fun d c _ _ => d = 0 ∧ c = []

inductive Site where
  | anywhere | nowhere | current | taken
deriving DecidableEq, Repr

def Cause.site : Cause → Site
  | tooDeep _ => .anywhere
  | endOfInput => .nowhere
  | integerRange _ | malformedFloat _ => .taken
  | mismatch .. | missing .. | noAtom _ | trailing _ | other _ => .current

/-- `b` are the tokens before the one that a failure is about, where the tokens `c` were taken and
`rest` are left. -/
inductive Failure.Stands (e : Failure) : List Token → List Token → List Token → Prop
  | nowhere {c rest} : e.cause.site = .nowhere → e.Stands c rest (c ++ rest)
  | current {c rest t} : e.cause.site = .current → e.token = some t → e.Stands c (t :: rest) c
  | taken {c rest t} : e.cause.site = .taken → e.token = some t →
      t.kind = .intLiteral ∨ t.kind = .floatLiteral → e.Stands (c ++ [t]) rest c

/-- Up to the token that it is about, a failure leaves a beginning of a sentence. -/
def Blames {α : Type} (D : Language α) (ts rest : List Token) (e : Failure) : Prop :=
  ∃ c, ts = c ++ rest ∧ (e.cause.site = .anywhere ∨ ∃ b, e.Stands c rest b ∧ D.Begins b)

/-- Some sentence is at the front of the tokens, or the failure says why none is. -/
def Explains {α : Type} (D : Language α) (room : Nat) (ts : List Token) :
    Except Failure α × List Token → Prop
  | (.ok a, rest) => ∃ d c, d ≤ room ∧ ts = c ++ rest ∧ D d c rest a
  | (.error e, rest) => Blames D ts rest e

structure SoundAt {α : Type} (room : Nat) (ts : List Token) (p : Parser α) (D : Language α) :
    Prop where
  inhabited : D.Inhabited
  explains : Explains D room ts (p.run ts)

def Sound {α : Type} (room : Nat) (p : Parser α) (D : Language α) : Prop :=
  ∀ ts, SoundAt room ts p D

theorem Failure.Stands.append {e : Failure} {c rest b : List Token} (h : e.Stands c rest b)
    (before : List Token) : e.Stands (before ++ c) rest (before ++ b) := by
  cases h with
  | nowhere hs =>
    rw [← List.append_assoc]
    exact .nowhere hs
  | current hs ht => exact .current hs ht
  | taken hs ht hk =>
    rw [← List.append_assoc]
    exact .taken hs ht hk

namespace Sound

open BraceLang.Grammar.Parser

variable {α β : Type} {room : Nat} {D : Language β}

theorem inhabited {p : Parser β} (h : Sound room p D) : D.Inhabited :=
  (h []).inhabited

theorem blames_after {d : Nat} {c ts rest : List Token} {e : Failure}
    (h : Blames (D.after d c) ts rest e) : Blames D (c ++ ts) rest e := by
  obtain ⟨c', rfl, h⟩ := h
  refine ⟨c ++ c', (List.append_assoc ..).symm, h.imp_right ?_⟩
  rintro ⟨b, hb, d', z, rest, a, h⟩
  exact ⟨c ++ b, hb.append c, _, z, rest, a, by rwa [List.append_assoc]⟩

theorem explains_after {d : Nat} {c ts : List Token} {r : Except Failure β × List Token}
    (hd : d ≤ room) (h : Explains (D.after d c) room ts r) : Explains D room (c ++ ts) r := by
  rcases r with ⟨_ | a, rest⟩
  · exact blames_after h
  · obtain ⟨d', c', hd', rfl, h⟩ := h
    exact ⟨max d d', c ++ c', by omega, by simp, h⟩

/-- A failure of a part is a failure of the whole if each sentence of the part can be completed. -/
theorem blames_of_completes {D' : Language α} {ts rest : List Token} {e : Failure}
    (hD : ∀ d c rest a, D' d c rest a → D.Begins c) (h : Blames D' ts rest e) :
    Blames D ts rest e := by
  obtain ⟨c, rfl, h⟩ := h
  refine ⟨c, rfl, h.imp_right ?_⟩
  rintro ⟨b, hb, d, z, rest', a, h⟩
  obtain ⟨d', z', rest'', a', h'⟩ := hD d _ _ a h
  exact ⟨b, hb, d', z ++ z', rest'', a', by rwa [← List.append_assoc]⟩

theorem pure_at {b : β} {ts : List Token} (h : D 0 [] ts b) :
    SoundAt room ts (Pure.pure b : Parser β) D :=
  ⟨⟨0, [], ts, b, h⟩, 0, [], Nat.zero_le _, rfl, h⟩

theorem pure {b : β} (h : ∀ rest, D 0 [] rest b) : Sound room (Pure.pure b : Parser β) D :=
  fun ts => pure_at (h ts)

/-- A sequence whose second part is only known to be sound on what the first part leaves. -/
theorem bind_at {p : Parser α} {f : α → Parser β} {D' : Language α} (hp : Sound room p D')
    (hf : ∀ d c rest a, D' d c rest a → SoundAt room rest (f a) (D.after d c)) :
    Sound room (p >>= f) D := by
  have hb : ∀ d c rest a, D' d c rest a → D.Begins c := by
    intro d c rest a h
    obtain ⟨d', c', rest', b, h'⟩ := (hf d c rest a h).inhabited
    exact ⟨_, c', rest', b, h'⟩
  intro ts
  constructor
  · obtain ⟨d, c, rest, a, h⟩ := hp.inhabited
    obtain ⟨d', z, rest', b, h'⟩ := hb d c rest a h
    exact ⟨d', _, rest', b, h'⟩
  · have hts := (hp ts).explains
    rcases hrun : run p ts with ⟨e | a, rest⟩
    · rw [hrun] at hts
      rw [run_bind_of_error f hrun]
      exact blames_of_completes hb hts
    · rw [hrun] at hts
      obtain ⟨d, c, hd, rfl, h⟩ := hts
      rw [run_bind_of_ok f hrun]
      exact explains_after hd (hf d c rest a h).explains

theorem bind {p : Parser α} {f : α → Parser β} {D' : Language α} (hp : Sound room p D')
    (hf : ∀ d c rest a, D' d c rest a → Sound room (f a) (D.after d c)) :
    Sound room (p >>= f) D :=
  hp.bind_at fun d c rest a h => hf d c rest a h rest

theorem mono {p : Parser β} {D' : Language β} (hp : Sound room p D')
    (h : ∀ d c rest a, D' d c rest a → D d c rest a) : Sound room p D := by
  obtain ⟨d, c, rest, a, hi⟩ := hp.inhabited
  refine fun ts => ⟨⟨d, c, rest, a, h _ _ _ _ hi⟩, ?_⟩
  have hts := (hp ts).explains
  rcases hrun : run p ts with ⟨e | a, rest⟩ <;> rw [hrun] at hts
  · exact blames_of_completes
      (fun d c rest a h' => ⟨d, [], rest, a, by simpa using h d c rest a h'⟩) hts
  · obtain ⟨d, c, hd, hc, h'⟩ := hts
    exact ⟨d, c, hd, hc, h _ _ _ _ h'⟩

theorem map {f : α → β} {p : Parser α} {D' : Language α} (hp : Sound room p D')
    (h : ∀ d c rest a, D' d c rest a → D d c rest (f a)) : Sound room (f <$> p) D := by
  have hb : Sound room (p >>= fun a => Pure.pure (f a)) D :=
    hp.bind_at fun d c rest a ha => pure_at (by simpa [Language.after] using h d c rest a ha)
  refine fun ts => ⟨hb.inhabited, ?_⟩
  rw [run_map]
  exact (hb ts).explains

theorem enter_bind {rule : Production} {f : Unit → Parser β} (h : Sound room (f ()) D) :
    Sound room (enter rule >>= f) D :=
  fun ts => ⟨h.inhabited, by rw [run_enter_bind]; exact (h ts).explains⟩

/-- A failure at the current token. -/
theorem blames_current {e : Failure} {t : Token} {rest : List Token} (hs : e.cause.site = .current)
    (ht : e.token = some t) (hi : D.Inhabited) : Blames D (t :: rest) (t :: rest) e :=
  ⟨[], rfl, .inr ⟨[], .current hs ht, hi⟩⟩

/-- A failure because no token is left, or only one where two have to be there. -/
theorem blames_end {e : Failure} {ts : List Token} (hs : e.cause.site = .nowhere)
    (hb : D.Begins ts) : Blames D ts ts e :=
  ⟨[], rfl, .inr ⟨ts, .nowhere hs, hb⟩⟩

def tokenOf (k : Kind) : Language Token :=
  fun d c _ t => d = 0 ∧ c = [t] ∧ t.kind = k

theorem take {expected : Kind} {cause : Kind → Cause} (hc : ∀ k, (cause k).site = .current) :
    Sound room (Parser.take expected cause) (tokenOf expected) := by
  have hi : (tokenOf expected).Inhabited :=
    ⟨0, _, [], ⟨expected, .origin, .origin, ""⟩, rfl, rfl, rfl⟩
  refine fun ts => ⟨hi, ?_⟩
  cases ts with
  | nil => exact blames_end rfl hi.begins_nil
  | cons t rest =>
    by_cases hk : t.kind = expected
    · rw [run_take_of_kind rest cause hk]
      exact ⟨0, [t], Nat.zero_le room, rfl, rfl, rfl, hk⟩
    · rw [run_take_of_ne rest cause hk]
      exact blames_current (hc _) rfl hi

theorem expect (k : Kind) : Sound room (Parser.expect k) (tokenOf k) :=
  take fun _ => rfl

theorem take_bind {expected : Kind} {cause : Kind → Cause} {f : Token → Parser β}
    (hc : ∀ k, (cause k).site = .current)
    (hf : ∀ t, t.kind = expected → Sound room (f t) (D.after 0 [t])) :
    Sound room (Parser.take expected cause >>= f) D := by
  refine (take hc).bind fun d c _ t h => ?_
  obtain ⟨rfl, rfl, hk⟩ := h
  exact hf t hk

theorem expect_bind {expected : Kind} {f : Token → Parser β}
    (hf : ∀ t, t.kind = expected → Sound room (f t) (D.after 0 [t])) :
    Sound room (Parser.expect expected >>= f) D :=
  take_bind (fun _ => rfl) hf

theorem require_bind {expected : Kind} {place : Place} {f : Token → Parser β}
    (hf : ∀ t, t.kind = expected → Sound room (f t) (D.after 0 [t])) :
    Sound room (require expected place >>= f) D :=
  take_bind (fun _ => rfl) hf

/-- What is done after a look at the current token, which is known where it is done. -/
theorem current_bind_at {f : Kind → Parser β} (hi : D.Inhabited)
    (hf : ∀ t rest, Explains D room (t :: rest) (run (f t.kind) (t :: rest))) :
    Sound room (current >>= f) D := by
  refine fun ts => ⟨hi, ?_⟩
  cases ts with
  | nil => exact blames_end rfl hi.begins_nil
  | cons t rest =>
    rw [run_current_cons_bind]
    exact hf t rest

theorem current_bind {f : Kind → Parser β} (hf : ∀ k, Sound room (f k) D) :
    Sound room (current >>= f) D :=
  current_bind_at (hf .comma).inhabited fun t _ => (hf t.kind _).explains

theorem accept?_bind {γ : Type} {table : Kind → Option γ} {f : Option (γ × Token) → Parser β}
    (hn : Sound room (f none) D)
    (hs : ∀ t op, table t.kind = some op → Sound room (f (some (op, t))) (D.after 0 [t])) :
    Sound room (accept? table >>= f) D := by
  refine fun ts => ⟨hn.inhabited, ?_⟩
  cases ts with
  | nil => exact (hn []).explains
  | cons t rest =>
    cases htable : table t.kind with
    | none =>
      rw [run_accept?_bind_of_none f htable]
      exact (hn _).explains
    | some op =>
      rw [run_accept?_bind_of_some f htable]
      exact explains_after (Nat.zero_le room) (hs t op htable rest).explains

theorem deeper {p : Parser β} (h : Sound room p D) : Sound (room + 1) p.deeper D.deeper := by
  obtain ⟨d, c, rest, a, hi⟩ := h.inhabited
  refine fun ts => ⟨⟨d + 1, c, rest, a, d, rfl, hi⟩, ?_⟩
  have hts := (h ts).explains
  rw [run_deeper]
  rcases hrun : run p ts with ⟨e | a, rest⟩ <;> rw [hrun] at hts
  · exact blames_of_completes (fun d c rest a h' => ⟨d + 1, [], rest, a, d, rfl, by simpa using h'⟩)
      hts
  · obtain ⟨d, c, hd, rfl, h'⟩ := hts
    exact ⟨d + 1, c, Nat.succ_le_succ hd, rfl, d, rfl, h'⟩

theorem tooDeep {nest : Nest} (h : D.Inhabited) :
    Sound room (fail (.tooDeep nest) : Parser β) D :=
  fun _ => ⟨h, [], rfl, .inl rfl⟩

theorem manyUpTo {test : Parser Bool} {item : Parser α} {D' : Language α} {D : Language (List α)}
    (ht : Sound room test Language.glance) (hi : Sound room item D') (hn : ∀ rest, D 0 [] rest [])
    (hc : ∀ d c rest a d' c' rest' as, D' d c rest a → D d' c' rest' as →
      D (max d d') (c ++ c') rest' (a :: as)) (bound : List Token) :
    Sound room (Parser.manyUpTo test item bound) D := by
  induction bound with
  | nil =>
    refine ht.bind fun d c rest _ h => ?_
    obtain ⟨rfl, rfl⟩ := h
    exact .pure (by simpa using hn)
  | cons u bound ih =>
    refine ht.bind fun d c rest b h => ?_
    obtain ⟨rfl, rfl⟩ := h
    rw [Language.after_zero_nil]
    cases b with
    | false => exact .pure hn
    | true =>
      exact hi.bind fun d c rest a h => ih.map fun d' c' rest' as =>
        hc d c rest a d' c' rest' as h

theorem many {test : Parser Bool} {item : Parser α} {D' : Language α} {D : Language (List α)}
    (ht : Sound room test Language.glance) (hi : Sound room item D') (hn : ∀ rest, D 0 [] rest [])
    (hc : ∀ d c rest a d' c' rest' as, D' d c rest a → D d' c' rest' as →
      D (max d d') (c ++ c') rest' (a :: as)) : Sound room (Parser.many test item) D :=
  fun ts =>
    have h := manyUpTo ht hi hn hc ts ts
    ⟨h.inhabited, h.explains⟩

theorem extend {r r' : Rung} {operand : Parser Expr} (hr : r.tighter? = some r')
    (ho : Sound room operand (Phrase.language (.expr r'))) {d : Nat} {c : List Token} {lhs : Expr}
    (h : Derives (.expr r lhs) d c) :
    Sound room (Parser.extend r.leftOp? operand .binary lhs)
      ((Phrase.language (.expr r)).after d c) := by
  suffices ∀ bound, Sound room (extendUpTo r.leftOp? operand .binary bound lhs)
      ((Phrase.language (.expr r)).after d c) from
    fun ts => ⟨(this ts ts).inhabited, (this ts ts).explains⟩
  intro bound
  induction bound generalizing d c lhs with
  | nil => exact .pure fun _ => by simpa [Language.after, Phrase.language] using h
  | cons u bound ih =>
    refine accept?_bind (.pure fun _ => by simpa [Language.after, Phrase.language] using h)
      fun t op ht => ho.bind fun d' c' rest rhs h' => ?_
    rw [Language.after_after, Language.after_after]
    simpa using ih (.left hr h ht h')

theorem chain {r r' : Rung} {operand : Parser Expr} (hr : r.tighter? = some r')
    (ho : Sound room operand (Phrase.language (.expr r'))) :
    Sound room (Parser.chain r.leftOp? operand .binary) (Phrase.language (.expr r)) :=
  ho.bind fun _ _ _ _ h => extend hr ho (.tighter hr h)

/-- A token whose text is read as a value, or else blamed after it was taken. -/
theorem literal_bind {expected : Kind} {f : Token → Parser β}
    (hk : expected = .intLiteral ∨ expected = .floatLiteral) (hi : D.Inhabited)
    (hf : ∀ t, t.kind = expected → (∃ b, f t = Pure.pure b ∧ ∀ rest, D 0 [t] rest b) ∨
      ∃ cause, cause.site = .taken ∧ f t = failAt (some t) cause) :
    Sound room (Parser.expect expected >>= f) D := by
  refine fun ts => ⟨hi, ?_⟩
  cases ts with
  | nil => exact blames_end rfl hi.begins_nil
  | cons t rest =>
    by_cases ht : t.kind = expected
    · rw [run_expect_bind f ht]
      rcases hf t ht with ⟨b, hb, h⟩ | ⟨cause, hc, h⟩
      · rw [hb]
        exact ⟨0, [t], Nat.zero_le _, rfl, h rest⟩
      · subst ht
        rw [h]
        exact ⟨[t], rfl, .inr ⟨[], .taken (c := []) hc rfl hk, hi⟩⟩
    · rw [Parser.expect, run_bind_of_error f (run_take_of_ne rest _ ht)]
      exact blames_current rfl rfl hi

end Sound

end BraceLang.Grammar
