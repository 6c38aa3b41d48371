import BraceLang.Proofs.Derivation

/-!
# What phrases start with and what may stand behind them

The parser chooses by the next token or two, and goes on as long as it can. It finds a given
derivation if the first token of each phrase is one that its production is chosen for, and if the
token behind a phrase does not go on with it. For expressions, that is a comparison of how tightly
the token binds with the level of the expression (`EndsBefore`).
-/

namespace BraceLang

namespace Kind

def startsAtom : Kind → Bool
  | .intLiteral | .floatLiteral | .stringLiteral | .identifier | .leftParen => true
  | _ => false

def startsForm : Kind → Bool
  | .leftBrace | .semicolon | .reservedFor | .reservedWhile | .reservedIf | .reservedReturn => true
  | _ => false

/-- How tightly an operator or bracket of the kind holds on to what stands before it. -/
def binding : Kind → Nat
  | .leftBracket | .leftParen => 8
  | .caret => 7
  | .star | .slash | .percent => 5
  | .plus | .minus => 4
  | .lessThan | .lessThanEquals | .greaterThan | .greaterThanEquals => 3
  | .equalsEquals | .bangEquals => 2
  | .equals => 1
  | _ => 0

end Kind

namespace Grammar

def Phrase.StartsWith (k : Kind) : Phrase → Prop
  | expr r _ => Kind.startsAtom k ∨ (unaryOp? k ≠ none ∧ r ≠ .power ∧ r ≠ .atom)
  | form _ _ | stmt _ _ | start _ =>
    Kind.startsAtom k ∨ unaryOp? k ≠ none ∨ Kind.startsForm k
  | block _ => k = .leftBrace
  | function _ => k = .identifier
  | _ => True

def Phrase.solid : Phrase → Bool
  | expr .. | form .. | stmt .. | start _ | block _ | function _ => true
  | _ => false

theorem Phrase.StartsWith.loosen {k : Kind} {r r' : Rung} {e : Expr} (hr : r.tighter? = some r')
    (h : (Phrase.expr r' e).StartsWith k) : (Phrase.expr r e).StartsWith k := by
  refine h.imp_right fun ⟨hk, hp, ha⟩ => ⟨hk, ?_, ?_⟩
  · rintro rfl
    exact ha (Option.some.inj hr).symm
  · rintro rfl
    cases hr

theorem Derives.head {ph : Phrase} {d : Nat} {ts : List Token} (h : Derives ph d ts)
    (hs : ph.solid) : ∃ t rest, ts = t :: rest ∧ ph.StartsWith t.kind := by
  induction h with
  | expression _ ih =>
    obtain ⟨t, rest, rfl, h⟩ := ih rfl
    exact ⟨t, rest, rfl, h.imp_right fun h => ⟨h.1, by decide, by decide⟩⟩
  | tighter hr _ ih =>
    obtain ⟨t, rest, rfl, h⟩ := ih rfl
    exact ⟨t, rest, rfl, h.loosen hr⟩
  | assign _ _ _ ih =>
    obtain ⟨t, rest, rfl, h⟩ := ih rfl
    exact ⟨t, _, rfl, h.imp_right fun h => ⟨h.1, by decide, by decide⟩⟩
  | left _ _ _ _ ih =>
    obtain ⟨t, rest, rfl, h⟩ := ih rfl
    exact ⟨t, _, rfl, h⟩
  | sign ht => exact ⟨_, _, rfl, .inr ⟨by simp [ht], by decide, by decide⟩⟩
  | pow _ _ _ ih =>
    obtain ⟨t, rest, rfl, h⟩ := ih rfl
    exact ⟨t, _, rfl, h.imp_right fun h => absurd rfl h.2.2⟩
  | int h => exact ⟨_, _, rfl, .inl (by rw [h.kind]; rfl)⟩
  | float h | string h | var h | index h | call h | parens h =>
    exact ⟨_, _, rfl, .inl (by rw [h]; rfl)⟩
  | stmt _ ih =>
    obtain ⟨t, rest, rfl, h⟩ := ih rfl
    exact ⟨t, rest, rfl, h⟩
  | expr _ _ ih | exprStart _ _ ih =>
    obtain ⟨t, rest, rfl, h⟩ := ih rfl
    exact ⟨t, _, rfl, h.imp_right fun h => .inl h.1⟩
  | scalar h | array h | varStart h => exact ⟨_, _, rfl, .inl (by rw [h]; rfl)⟩
  | blockForm _ ih =>
    obtain ⟨t, rest, rfl, h⟩ := ih rfl
    exact ⟨t, rest, rfl, .inr (.inr (by rw [h]; rfl))⟩
  | loop h | forLoop h | ifThen h | ifElse h | result h | empty h | emptyStart h =>
    exact ⟨_, _, rfl, .inr (.inr (by rw [h]; rfl))⟩
  | block h | function h => exact ⟨_, _, rfl, h⟩
  | _ => cases hs

/-- Kinds that start no expression. -/
theorem Phrase.StartsWith.expr_ne {r : Rung} {e : Expr} {k k' : Kind}
    (h : (Phrase.expr r e).StartsWith k) (ha : k'.startsAtom = false) (hu : unaryOp? k' = none) :
    k ≠ k' := by
  rintro rfl
  rcases h with h | ⟨h, -⟩
  · exact Bool.false_ne_true (ha ▸ h)
  · exact h hu

/-- Kinds that start no statement. -/
theorem Phrase.StartsWith.stmt_ne {o : Bool} {s : Stmt} {k k' : Kind}
    (h : (Phrase.stmt o s).StartsWith k) (ha : k'.startsAtom = false) (hu : unaryOp? k' = none)
    (hf : k'.startsForm = false) : k ≠ k' := by
  rintro rfl
  rcases h with h | h | h
  · exact Bool.false_ne_true (ha ▸ h)
  · exact h hu
  · exact Bool.false_ne_true (hf ▸ h)

theorem Derives.ne_nil {ph : Phrase} {d : Nat} {ts : List Token} (h : Derives ph d ts)
    (hs : ph.solid) : ts ≠ [] := by
  obtain ⟨t, rest, rfl, -⟩ := h.head hs
  exact List.cons_ne_nil t rest

theorem Rung.leftOp?_identifier (r : Rung) : r.leftOp? .identifier = none := by
  cases r <;> rfl

def NoNamePair (ts : List Token) : Prop :=
  ∀ ⦃t u rest⦄, ts = t :: u :: rest → t.kind = .identifier → u.kind ≠ .identifier

theorem noNamePair_of_ne {t : Token} {rest : List Token} (h : t.kind ≠ .identifier) :
    NoNamePair (t :: rest) := by
  rintro t' u rest' ⟨⟩ ht
  exact absurd ht h

theorem NoNamePair.append_cons {ls rs : List Token} {o : Token} (h : NoNamePair ls) (hne : ls ≠ [])
    (ho : o.kind ≠ .identifier) : NoNamePair (ls ++ o :: rs) := by
  intro t u rest hts ht
  rcases ls with _ | ⟨a, _ | ⟨b, ls⟩⟩
  · exact absurd rfl hne
  · simp only [List.cons_append, List.nil_append, List.cons.injEq] at hts
    exact hts.2.1 ▸ ho
  · simp only [List.cons_append, List.cons.injEq] at hts
    exact h (by rw [hts.1, hts.2.1]) ht

def Phrase.isExpr : Phrase → Bool
  | expr .. => true
  | _ => false

theorem Derives.noNamePair {ph : Phrase} {d : Nat} {ts : List Token} (h : Derives ph d ts)
    (hs : ph.isExpr) : NoNamePair ts := by
  induction h with
  | expression _ ih | tighter _ _ ih => exact ih rfl
  | assign hl ht _ ih => exact (ih rfl).append_cons (hl.ne_nil rfl) (by simp [ht])
  | left _ hl ht _ ih =>
    refine (ih rfl).append_cons (hl.ne_nil rfl) fun hk => ?_
    rw [hk, Rung.leftOp?_identifier] at ht
    cases ht
  | pow hl ht _ ih => exact (ih rfl).append_cons (hl.ne_nil rfl) (by simp [ht])
  | sign ht =>
    refine noNamePair_of_ne fun hk => ?_
    rw [hk] at ht
    cases ht
  | parens ho => exact noNamePair_of_ne (by simp [ho])
  | int | float | string | var => rintro t u rest ⟨⟩
  | index _ ho | call _ ho =>
    rintro t u rest ⟨⟩ _
    simp [ho]
  | _ => cases hs

/-- The least binding of what would be read into a phrase of a level, apart from the operators that
join phrases of the level itself. -/
def Rung.binding : Rung → Nat
  | expression | assignment => 1
  | equality => 3
  | comparison => 4
  | sum => 5
  | product => 6
  | unary | power => 7
  | atom => 8

def EndsBefore (b : Nat) (rest : List Token) : Prop :=
  ∀ t ∈ rest.head?, t.kind.binding < b

theorem endsBefore_nil (b : Nat) : EndsBefore b [] := by
  simp [EndsBefore]

theorem endsBefore_cons {b : Nat} {t : Token} {rest : List Token} :
    EndsBefore b (t :: rest) ↔ t.kind.binding < b := by
  simp [EndsBefore]

theorem EndsBefore.mono {b b' : Nat} {rest : List Token} (h : EndsBefore b rest) (hb : b ≤ b') :
    EndsBefore b' rest :=
  fun t ht => Nat.lt_of_lt_of_le (h t ht) hb

theorem Rung.binding_of_leftOp? {r : Rung} {k : Kind} {op : BinaryOp} (h : r.leftOp? k = some op) :
    k.binding + 1 = r.binding := by
  cases r <;> first | cases h | (cases k <;> first | rfl | cases h)

theorem Rung.binding_le_of_tighter? {r r' : Rung} (h : r.tighter? = some r') :
    r.binding ≤ r'.binding := by
  cases r <;> cases h <;> decide

/-- The operators of a level bind at least as tightly as what ends a phrase of the looser level. -/
theorem Rung.binding_le_of_leftOp? {r r' : Rung} (hr : r.tighter? = some r') {k : Kind}
    {op : BinaryOp} (h : r'.leftOp? k = some op) : r.binding ≤ k.binding := by
  have hb := binding_of_leftOp? h
  cases r <;> cases hr <;> first | cases h | (simp only [binding] at hb ⊢; omega)

end Grammar

end BraceLang
