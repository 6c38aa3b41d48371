import BraceLang.Proofs.Follow
import BraceLang.Proofs.Soundness

/-!
# Every derivation is found

A phrase that is derived with `d` levels of nesting is read with the tree of the derivation where
there is room for `d` levels, and stops at the limit where there is less (`Meets`). What may stand
behind the phrase depends on its sort (`Phrase.Parsed`). The proof is one induction over the
derivation, with a lemma for each of its rules.
-/

namespace BraceLang.Grammar

open BraceLang.Grammar.Parser

def StopsTooDeep {α : Type} (r : Except Failure α × List Token) : Prop :=
  ∃ nest token rest, r = (.error ⟨.tooDeep nest, token⟩, rest)

/-- With room for `d` levels the run ends as it should, with less it stops at the limit. -/
def Meets {α : Type} (room d : Nat) (r r' : Except Failure α × List Token) : Prop :=
  if d ≤ room then r = r' else StopsTooDeep r

namespace Meets

variable {α β : Type} {room d d' : Nat}

theorem of_eq {r r' : Except Failure α × List Token} (h : r = r') : Meets room 0 r r' := by
  simpa [Meets] using h

theorem trans {r r' r'' : Except Failure α × List Token} (h : Meets room d r r')
    (h' : Meets room d' r' r'') : Meets room (max d d') r r'' := by
  unfold Meets at h h' ⊢
  split at h
  · subst h
    split at h'
    · rwa [if_pos (by omega)]
    · rwa [if_neg (by omega)]
  · rwa [if_neg (by omega)]

theorem trans_eq {r r' r'' : Except Failure α × List Token} (h : Meets room d r r')
    (h' : r' = r'') : Meets room d r r'' :=
  h' ▸ h

/-- A part that stops at the limit stops the whole. -/
theorem bind {p : Parser α} {ts mid : List Token} {a : α} (h : Meets room d (run p ts) (.ok a, mid))
    (f : α → Parser β) : Meets room d (run (p >>= f) ts) (run (f a) mid) := by
  unfold Meets at h ⊢
  split at h
  · rw [if_pos ‹_›, run_bind_of_ok f h]
  · obtain ⟨nest, token, rest, h⟩ := h
    rw [if_neg ‹_›, run_bind_of_error f h]
    exact ⟨nest, token, rest, rfl⟩

theorem map {p : Parser α} {ts mid : List Token} {a : α} (h : Meets room d (run p ts) (.ok a, mid))
    (f : α → β) : Meets room d (run (f <$> p) ts) (.ok (f a), mid) := by
  rw [run_map]
  exact h.bind fun a => pure (f a)

theorem succ {r r' : Except Failure α × List Token} (h : Meets room d r r') :
    Meets (room + 1) (d + 1) r r' := by
  simpa [Meets] using h

theorem zero {ts : List Token} {nest : Nest}
    {r : Except Failure α × List Token} :
    Meets 0 (d + 1) (run (fail (.tooDeep nest) : Parser α) ts) r := by
  rw [Meets, if_neg (by omega)]
  exact ⟨nest, _, _, rfl⟩

/-- A parser that the nesting puts one level further down needs one level more. -/
theorem nested (inside body : Nested → Parser α) {nest : Nest}
    (hz : inside (.within 0) = fail (.tooDeep nest))
    (hs : ∀ room, inside (.within (room + 1)) = (body (.within room)).deeper) {ts : List Token}
    {r : Except Failure α × List Token}
    (h : ∀ room, Meets room d (run (body (.within room)) ts) r) (room : Nat) :
    Meets room (d + 1) (run (inside (.within room)) ts) r := by
  cases room with
  | zero =>
    rw [hz]
    exact Meets.zero
  | succ room =>
    rw [hs, run_deeper]
    exact (h room).succ

/-- A repetition goes on with an item that is read. -/
theorem many_cons {test : Parser Bool} {item : Parser α} (ht : Looks test) (hi : Progresses item)
    {ts mid : List Token} {a : α} {r : Except Failure (List α) × List Token} {as : List α}
    {rest : List Token} (htest : run test ts = (.ok true, ts))
    (ha : Meets room d (run item ts) (.ok a, mid))
    (has : Meets room d' (run (many test item) mid) (.ok as, rest))
    (hr : r = (.ok (a :: as), rest)) :
    Meets room (max d d') (run (many test item) ts) r := by
  rw [run_many ht hi, Parser.round, run_bind_of_ok _ htest, if_pos rfl, hr]
  exact (ha.bind _).trans (has.map (a :: ·))

end Meets

/-- A repetition ends where its test says so. -/
theorem run_many_nil {α : Type} {test : Parser Bool} {item : Parser α} (ht : Looks test)
    (hi : Progresses item) {ts : List Token} (htest : run test ts = (.ok false, ts)) :
    run (many test item) ts = (.ok [], ts) := by
  rw [run_many ht hi, Parser.round, run_bind_of_ok _ htest, if_neg (by decide), run_pure]

theorem looks_atComma : Looks atComma where
  keeps ts := by cases ts <;> rfl
  stops h := by cases h

theorem run_atComma (t : Token) (rest : List Token) :
    run atComma (t :: rest) = (.ok (t.kind = .comma), t :: rest) := rfl

theorem looks_insideBlock : Looks insideBlock where
  keeps ts := by cases ts <;> rfl
  stops h := by cases h

theorem run_insideBlock (t : Token) (rest : List Token) :
    run insideBlock (t :: rest) = (.ok (t.kind ≠ .rightBrace), t :: rest) := rfl

theorem looks_moreTokens : Looks moreTokens where
  keeps _ := rfl
  stops h := by cases h

theorem run_moreTokens (ts : List Token) :
    run moreTokens ts = (.ok ts.head?.isSome, ts) := by
  cases ts <;> rfl

def Rung.parser (inner : Nested) : Rung → Parser Expr
  | expression => Parser.expression inner
  | assignment => Parser.assignment inner
  | equality => Parser.equality inner
  | comparison => Parser.comparison inner
  | sum => Parser.sum inner
  | product => Parser.product inner
  | unary => Parser.unary inner
  | power => Parser.power inner
  | atom => Parser.atom inner

def Rung.onward (inner : Nested) (r : Rung) (e : Expr) : Parser Expr :=
  extend r.leftOp? ((r.tighter?.getD .atom).parser inner) .binary e

theorem Rung.parser_sound {room : Nat} {inner : Nested} (hin : Inner room inner) (r : Rung) :
    Sound room (r.parser inner) (Phrase.language (.expr r)) := by
  cases r with
  | expression => exact expression_sound hin
  | assignment => exact assignment_sound hin
  | equality => exact equality_sound hin
  | comparison => exact comparison_sound hin
  | sum => exact sum_sound hin
  | product => exact product_sound hin
  | unary => exact unary_sound hin
  | power => exact power_sound hin
  | atom => exact atom_sound hin

theorem Sound.progresses {α : Type} {room : Nat} {p : Parser α} {D : Language α}
    (h : Sound room p D) (hD : ∀ d c rest a, D d c rest a → c ≠ []) : Progresses p := by
  intro ts a rest hrun
  have hts := (h ts).explains
  rw [hrun] at hts
  obtain ⟨d, c, -, rfl, hc⟩ := hts
  have := List.length_pos_iff.mpr (hD d c rest a hc)
  simp only [List.length_append]
  omega

theorem Rung.parser_progresses {room : Nat} {inner : Nested} (hin : Inner room inner) (r : Rung) :
    Progresses (r.parser inner) :=
  (r.parser_sound hin).progresses fun _ _ _ _ h => Derives.ne_nil h rfl

/-- Where no operator of the level comes next, an expression of the level is complete. -/
theorem Rung.run_onward_of_none {inner : Nested} {r : Rung} (e : Expr) {rest : List Token}
    (h : ∀ t ∈ rest.head?, r.leftOp? t.kind = none) :
    run (r.onward inner e) rest = (.ok e, rest) := by
  cases rest with
  | nil => rfl
  | cons t rest => exact run_accept?_bind_of_none _ (h t rfl)

theorem Rung.run_onward_of_endsBefore {inner : Nested} {r r' : Rung} (hr : r.tighter? = some r')
    (e : Expr) {rest : List Token} (h : EndsBefore r.binding rest) :
    run (r'.onward inner e) rest = (.ok e, rest) := by
  refine r'.run_onward_of_none e fun t ht => ?_
  cases hop : r'.leftOp? t.kind with
  | none => rfl
  | some op =>
    have hle := binding_le_of_leftOp? hr hop
    have hlt := h t ht
    omega

/-- The next operator of a level joins what was read with one more operand. -/
theorem Rung.run_onward_of_some {room : Nat} {inner : Nested} (hin : Inner room inner)
    {r r' : Rung} (hr : r.tighter? = some r') (e : Expr) {t : Token} {rest : List Token}
    {op : BinaryOp} (h : r.leftOp? t.kind = some op) :
    run (r.onward inner e) (t :: rest) =
      run (r'.parser inner >>= fun e' => r.onward inner (.binary op t e e')) rest := by
  simp only [onward, hr, Option.getD_some]
  rw [run_extend (r'.parser_progresses hin), joined, run_accept?_bind_of_some _ h]

theorem assignmentOp?_of_endsBefore {rest : List Token} (h : EndsBefore 1 rest) :
    ∀ t ∈ rest.head?, assignmentOp? t.kind = none := by
  intro t ht
  have hlt := h t ht
  cases hk : t.kind <;> simp_all [Kind.binding, assignmentOp?]

theorem powerOp?_of_endsBefore {rest : List Token} (h : EndsBefore 7 rest) :
    ∀ t ∈ rest.head?, powerOp? t.kind = none := by
  intro t ht
  have hlt := h t ht
  cases hk : t.kind <;> simp_all [Kind.binding, powerOp?]

theorem unaryOp?_of_startsAtom {k : Kind} (h : k.startsAtom) : unaryOp? k = none := by
  cases k <;> first | rfl | cases h

theorem run_integer {l : IntLiteral} (h : Reads l) (rest : List Token) :
    run integer (l.token :: rest) = (.ok l, rest) := by
  rw [integer, run_enter_bind, run_expect_bind _ h.kind, h.value, run_pure]

/-- The first token chooses the atom. -/
theorem run_atom_of_kind {inner : Nested} {t : Token} {k : Kind} (rest : List Token)
    (h : t.kind = k) :
    run (atom inner) (t :: rest) =
      run (match k with
        | .intLiteral => .int <$> integer
        | .floatLiteral => Parser.float
        | .stringLiteral => Parser.string
        | .identifier => named inner
        | .leftParen => parenthesized inner
        | kind => fail (.noAtom kind)) (t :: rest) := by
  subst h
  rw [atom, run_enter_bind]
  exact run_current_cons_bind _ t rest

/-- An expression and its semicolon are not taken for another statement. -/
theorem run_dispatch_of_expression {inner : Nested} {e : Expr} {d : Nat} {ts rest : List Token}
    {t : Token} (h : Derives (.expr .expression e) d ts) (ht : t.kind = .semicolon) :
    run (dispatch inner) (ts ++ t :: rest) = run (expressionStatement inner) (ts ++ t :: rest) := by
  have hpair : NoNamePair (ts ++ t :: rest) :=
    (h.noNamePair rfl).append_cons (h.ne_nil rfl) (by simp [ht])
  obtain ⟨u, us, rfl, hu⟩ := h.head rfl
  rw [List.cons_append, dispatch, run_current_cons_bind]
  by_cases hk : u.kind = .identifier
  · rcases hus : us ++ t :: rest with _ | ⟨v, vs⟩
    · simp at hus
    · rw [List.cons_append, hus] at hpair
      rw [hk]
      simp only []
      rw [run_following_cons_bind, if_neg (hpair rfl hk)]
  · have hu' : u.kind.startsAtom ∨ unaryOp? u.kind ≠ none := hu.imp_right fun h => h.1
    cases hkind : u.kind <;> simp_all [Kind.startsAtom, unaryOp?]

/-- The first token chooses the statement, unless it is a name or starts an expression. -/
theorem run_dispatch_of_kind {inner : Nested} {t : Token} {k : Kind} (rest : List Token)
    (h : t.kind = k) (hk : k.startsForm) :
    run (dispatch inner) (t :: rest) =
      run (match k with
        | .leftBrace => .block <$> Parser.block inner
        | .semicolon => emptyStatement
        | .reservedFor => forLoop inner
        | .reservedWhile => whileLoop inner
        | .reservedIf => conditional inner
        | _ => Parser.result inner) (t :: rest) := by
  subst h
  rw [dispatch, run_current_cons_bind]
  cases ht : t.kind <;> simp_all [Kind.startsForm]

theorem run_dispatch_of_names {inner : Nested} {t u : Token} (rest : List Token)
    (ht : t.kind = .identifier) (hu : u.kind = .identifier) :
    run (dispatch inner) (t :: u :: rest) = run (declaration inner) (t :: u :: rest) := by
  rw [dispatch, run_current_cons_bind, ht]
  simp only []
  rw [run_following_cons_bind, if_pos hu]

/-- The parser of a phrase, run on the tokens of the phrase, reads it and leaves what is behind,
as far as nothing behind it belongs to it. -/
def Phrase.Parsed (d : Nat) (ts : List Token) : Phrase → Prop
  | expr r e => ∀ room rest, EndsBefore r.binding rest →
      Meets room d (run (r.parser (.within room)) (ts ++ rest))
        (run (r.onward (.within room) e) rest)
  | arguments es => ∀ room rest, headKind? rest = some .rightParen →
      Meets room d (run (Parser.arguments (.within room)) (ts ++ rest)) (.ok es, rest)
  | furtherArguments es => ∀ room rest, headKind? rest = some .rightParen →
      Meets room d (run (many atComma (furtherArgument (.within room))) (ts ++ rest))
        (.ok es, rest)
  | initializer i => ∀ room rest, headKind? rest = some .semicolon →
      Meets room d (run (initializer? (.within room)) (ts ++ rest)) (.ok i, rest)
  | value v => ∀ room rest, headKind? rest = some .semicolon →
      Meets room d (run (returned? (.within room)) (ts ++ rest)) (.ok v, rest)
  | start s => ∀ room rest, Meets room d (run (forStart (.within room)) (ts ++ rest)) (.ok s, rest)
  | form o s => ∀ room rest, (o = true → headKind? rest ≠ some .reservedElse) →
      Meets room d (run (dispatch (.within room)) (ts ++ rest)) (.ok s, rest)
  | stmt o s => ∀ room rest, (o = true → headKind? rest ≠ some .reservedElse) →
      Meets room d (run (statement (.within room)) (ts ++ rest)) (.ok s, rest)
  | stmts ss => ∀ room rest, headKind? rest = some .rightBrace →
      Meets room d (run (many insideBlock (statement (.within room))) (ts ++ rest)) (.ok ss, rest)
  | block ss => ∀ room rest,
      Meets room d (run (Parser.block (.within room)) (ts ++ rest)) (.ok ss, rest)
  | params ps => ∀ room rest, headKind? rest = some .rightParen →
      Meets room d (run paramList (ts ++ rest)) (.ok ps, rest)
  | furtherParams ps => ∀ room rest, headKind? rest = some .rightParen →
      Meets room d (run (many atComma furtherParam) (ts ++ rest)) (.ok ps, rest)
  | function f => ∀ room rest,
      Meets room d (run (Parser.function (.within room)) (ts ++ rest)) (.ok f, rest)
  | functions fs => ∀ room,
      Meets room d (run (many moreTokens (Parser.function (.within room))) ts) (.ok fs, [])

namespace Phrase.Parsed

variable {d d' : Nat} {ts ts' rest : List Token}

/-- An expression that nothing goes on is read whole. -/
theorem read {r : Rung} {e : Expr} (h : (expr r e).Parsed d ts) (room : Nat)
    (hrest : EndsBefore r.binding rest) (hop : ∀ t ∈ rest.head?, r.leftOp? t.kind = none) :
    Meets room d (run (r.parser (.within room)) (ts ++ rest)) (.ok e, rest) :=
  (h room rest hrest).trans_eq (Rung.run_onward_of_none e hop)

/-- An expression in front of a token that binds nothing to what is before it. -/
theorem read_cons {e : Expr} (h : (expr .expression e).Parsed d ts) (room : Nat) {t : Token}
    (ht : t.kind.binding = 0) :
    Meets room d (run (Parser.expression (.within room)) (ts ++ t :: rest)) (.ok e, t :: rest) :=
  h.read room (endsBefore_cons.mpr (by rw [ht]; decide)) fun _ _ => rfl

/-- A level without operators of its own leaves nothing to go on with. -/
theorem of_read {r : Rung} {e : Expr} (hop : r.leftOp? = fun _ => none)
    (h : ∀ room rest, EndsBefore r.binding rest →
      Meets room d (run (r.parser (.within room)) (ts ++ rest)) (.ok e, rest)) :
    (expr r e).Parsed d ts := fun room rest hrest =>
  (h room rest hrest).trans_eq (Rung.run_onward_of_none e fun _ _ => by rw [hop]).symm

theorem expression {e : Expr} (h : (expr .assignment e).Parsed d ts) :
    (expr .expression e).Parsed (d + 1) ts :=
  of_read rfl fun room _ hrest => Meets.nested Nested.assignment Parser.assignment rfl
    (fun _ => rfl) (fun room => h.read room hrest fun _ _ => rfl) room

/-- What is read at a level is read in the same way at the next looser one. -/
theorem tighter {r r' : Rung} {e : Expr} (hr : r.tighter? = some r')
    (hd : Derives (.expr r' e) d ts) (h : (expr r' e).Parsed d ts) : (expr r e).Parsed d ts := by
  intro room rest hrest
  have h' := h room rest (hrest.mono (Rung.binding_le_of_tighter? hr))
  rw [Rung.run_onward_of_endsBefore hr e hrest] at h'
  cases r with
  | expression | atom => cases hr
  | equality | comparison | sum | product =>
    cases hr
    exact h'.bind _
  | assignment =>
    cases hr
    refine (h'.bind _).trans_eq ?_
    rw [run_accept?_bind_of_forall _ (assignmentOp?_of_endsBefore hrest)]
    exact (Rung.run_onward_of_none e fun _ _ => rfl).symm
  | power =>
    cases hr
    refine (h'.bind _).trans_eq ?_
    rw [run_accept?_bind_of_forall _ (powerOp?_of_endsBefore hrest)]
    exact (Rung.run_onward_of_none e fun _ _ => rfl).symm
  | unary =>
    cases hr
    obtain ⟨t, ts, rfl, ht⟩ := hd.head rfl
    have hsign : unaryOp? t.kind = none :=
      unaryOp?_of_startsAtom (ht.resolve_right fun h => h.2.1 rfl)
    rw [Rung.parser, Parser.unary, run_enter_bind, List.cons_append,
      run_accept?_bind_of_none _ hsign]
    exact h'.trans_eq (Rung.run_onward_of_none e fun _ _ => rfl).symm

theorem assign {t : Token} {lhs rhs : Expr} (hl : (expr .equality lhs).Parsed d ts)
    (ht : t.kind = .equals) (hr : (expr .assignment rhs).Parsed d' ts') :
    (expr .assignment (.binary .assign t lhs rhs)).Parsed (max d (d' + 1)) (ts ++ t :: ts') := by
  refine of_read rfl fun room rest hrest => ?_
  rw [List.append_assoc, List.cons_append]
  have hop : assignmentOp? t.kind = some .assign := by rw [ht]; rfl
  have hend : EndsBefore Rung.equality.binding (t :: (ts' ++ rest)) :=
    endsBefore_cons.mpr (by rw [ht]; decide)
  refine ((hl.read room hend fun u hu => by cases hu; rw [ht]; rfl).bind _).trans ?_
  rw [run_accept?_bind_of_some _ hop]
  exact (Meets.nested Nested.assignment Parser.assignment rfl (fun _ => rfl)
    (fun room => hr.read room hrest fun _ _ => rfl) room).map _

theorem left {r r' : Rung} {op : BinaryOp} {t : Token} {lhs rhs : Expr}
    (hr : r.tighter? = some r') (hl : (expr r lhs).Parsed d ts) (ht : r.leftOp? t.kind = some op)
    (hrs : (expr r' rhs).Parsed d' ts') :
    (expr r (.binary op t lhs rhs)).Parsed (max d d') (ts ++ t :: ts') := by
  intro room rest hrest
  rw [List.append_assoc, List.cons_append]
  have hb := Rung.binding_of_leftOp? ht
  refine (hl room (t :: (ts' ++ rest)) (endsBefore_cons.mpr (by omega))).trans ?_
  rw [Rung.run_onward_of_some (inner_within room) hr lhs ht]
  refine Meets.bind ?_ _
  exact (hrs room rest (hrest.mono (Rung.binding_le_of_tighter? hr))).trans_eq
    (Rung.run_onward_of_endsBefore hr rhs hrest)

theorem sign {op : UnaryOp} {t : Token} {e : Expr} (ht : unaryOp? t.kind = some op)
    (h : (expr .unary e).Parsed d ts) : (expr .unary (.unary op t e)).Parsed (d + 1) (t :: ts) := by
  refine of_read rfl fun room rest hrest => ?_
  rw [List.cons_append, Rung.parser, Parser.unary, run_enter_bind, run_accept?_bind_of_some _ ht]
  exact (Meets.nested Nested.unary Parser.unary rfl (fun _ => rfl)
    (fun room => h.read room hrest fun _ _ => rfl) room).map _

theorem pow {t : Token} {lhs rhs : Expr} (hl : (expr .atom lhs).Parsed d ts)
    (ht : t.kind = .caret) (hr : (expr .power rhs).Parsed d' ts') :
    (expr .power (.binary .pow t lhs rhs)).Parsed (max d (d' + 1)) (ts ++ t :: ts') := by
  refine of_read rfl fun room rest hrest => ?_
  rw [List.append_assoc, List.cons_append]
  have hop : powerOp? t.kind = some .pow := by rw [ht]; rfl
  have hend : EndsBefore Rung.atom.binding (t :: (ts' ++ rest)) :=
    endsBefore_cons.mpr (by rw [ht]; decide)
  refine ((hl.read room hend fun _ _ => rfl).bind _).trans ?_
  rw [run_accept?_bind_of_some _ hop]
  exact (Meets.nested Nested.power Parser.power rfl (fun _ => rfl)
    (fun room => hr.read room hrest fun _ _ => rfl) room).map _

theorem int {l : IntLiteral} (hl : Reads l) : (expr .atom (.int l)).Parsed 0 [l.token] := by
  refine of_read rfl fun room rest _ => .of_eq ((run_atom_of_kind rest hl.kind).trans ?_)
  rw [run_map, run_bind_of_ok _ (run_integer hl rest), run_pure]

theorem float {t : Token} {x : Numeral.Binary64} (ht : t.kind = .floatLiteral)
    (hx : Numeral.Binary64.read? t.lexeme.toList = some x) :
    (expr .atom (.float x t)).Parsed 0 [t] := by
  refine of_read rfl fun room rest _ => .of_eq ((run_atom_of_kind rest ht).trans ?_)
  rw [Parser.float, run_enter_bind, run_expect_bind _ ht, hx, run_pure]

theorem string {t : Token} (ht : t.kind = .stringLiteral) :
    (expr .atom (.string (unquote t.lexeme) t)).Parsed 0 [t] := by
  refine of_read rfl fun room rest _ => .of_eq ((run_atom_of_kind rest ht).trans ?_)
  rw [Parser.string, run_enter_bind, run_expect_bind _ ht, run_pure]

theorem var {t : Token} (ht : t.kind = .identifier) : (expr .atom (.var t)).Parsed 0 [t] := by
  refine of_read rfl fun room rest hrest => .of_eq ((run_atom_of_kind rest ht).trans ?_)
  have hname : run (.var <$> expect .identifier) (t :: rest) = (.ok (Expr.var t), rest) := by
    rw [run_map, run_expect_bind _ ht, run_pure]
  cases rest with
  | nil => exact hname
  | cons u rest =>
    have hu := endsBefore_cons.mp hrest
    simp only [named, run_following?_bind, List.getElem?_cons_succ, List.getElem?_cons_zero,
      Option.map_some]
    split
    · next h =>
      rw [Option.some.inj h] at hu
      exact absurd hu (by decide)
    · next h =>
      rw [Option.some.inj h] at hu
      exact absurd hu (by decide)
    · exact hname

theorem index {t o c : Token} {e : Expr} (ht : t.kind = .identifier) (ho : o.kind = .leftBracket)
    (h : (expr .expression e).Parsed d ts) (hc : c.kind = .rightBracket) :
    (expr .atom (.index t e)).Parsed d (t :: o :: (ts ++ [c])) := by
  refine of_read rfl fun room rest _ => ?_
  simp only [List.cons_append, List.append_assoc, List.nil_append]
  rw [Rung.parser, run_atom_of_kind _ ht]
  simp only [named, run_following?_bind, List.getElem?_cons_succ, List.getElem?_cons_zero,
    Option.map_some, ho]
  rw [Parser.index, run_enter_bind, run_expect_bind _ ht, run_expect_bind _ ho]
  refine ((h.read_cons room (by rw [hc]; rfl)).bind _).trans_eq ?_
  rw [run_require_bind _ hc, run_pure]

theorem call {t o c : Token} {es : List Expr} (ht : t.kind = .identifier)
    (ho : o.kind = .leftParen) (h : (arguments es).Parsed d ts) (hc : c.kind = .rightParen) :
    (expr .atom (.call t es)).Parsed d (t :: o :: (ts ++ [c])) := by
  refine of_read rfl fun room rest _ => ?_
  simp only [List.cons_append, List.append_assoc, List.nil_append]
  rw [Rung.parser, run_atom_of_kind _ ht]
  simp only [named, run_following?_bind, List.getElem?_cons_succ, List.getElem?_cons_zero,
    Option.map_some, ho]
  rw [Parser.call, run_enter_bind, run_expect_bind _ ht, run_expect_bind _ ho]
  refine ((h room (c :: rest) (by simp [hc])).bind _).trans_eq ?_
  rw [run_require_bind _ hc, run_pure]

theorem parens {o c : Token} {e : Expr} (ho : o.kind = .leftParen)
    (h : (expr .expression e).Parsed d ts) (hc : c.kind = .rightParen) :
    (expr .atom e).Parsed d (o :: (ts ++ [c])) := by
  refine of_read rfl fun room rest _ => ?_
  simp only [List.cons_append, List.append_assoc, List.nil_append]
  rw [Rung.parser, run_atom_of_kind _ ho]
  simp only [parenthesized]
  rw [run_expect_bind _ ho]
  refine ((h.read_cons room (by rw [hc]; rfl)).bind _).trans_eq ?_
  rw [run_require_bind _ hc, run_pure]

theorem furtherArgument_progresses (room : Nat) :
    Progresses (furtherArgument (.within room)) :=
  (furtherArgument_sound (inner_within room)).progresses fun _ _ _ _ ⟨_, _, hc, _⟩ =>
    hc ▸ List.cons_ne_nil _ _

theorem noFurtherArguments : (furtherArguments []).Parsed 0 [] := by
  intro room rest hrest
  cases rest with
  | nil => cases hrest
  | cons t rest =>
    refine .of_eq (run_many_nil looks_atComma (furtherArgument_progresses room) ?_)
    rw [List.nil_append, run_atComma, Option.some.inj hrest]
    rfl

/-- Behind an argument stands a comma or the end of the list. -/
theorem binding_of_furtherArguments {es : List Expr} (h : Derives (.furtherArguments es) d ts)
    (hrest : headKind? rest = some .rightParen) :
    ∃ t rest', ts ++ rest = t :: rest' ∧ t.kind.binding = 0 := by
  cases h with
  | noFurtherArguments =>
    cases rest with
    | nil => cases hrest
    | cons t rest => exact ⟨t, rest, rfl, by rw [Option.some.inj hrest]; rfl⟩
  | furtherArguments ht => exact ⟨_, _, rfl, by rw [ht]; rfl⟩

theorem further {t : Token} {e : Expr} {es : List Expr} (ht : t.kind = .comma)
    (he : (expr .expression e).Parsed d ts) (hd : Derives (.furtherArguments es) d' ts')
    (hes : (furtherArguments es).Parsed d' ts') :
    (furtherArguments (e :: es)).Parsed (max d d') (t :: (ts ++ ts')) := by
  intro room rest hrest
  rw [List.cons_append, List.append_assoc]
  refine Meets.many_cons looks_atComma (furtherArgument_progresses room) ?_ ?_
    (hes room rest hrest) rfl
  · rw [run_atComma, ht]
    rfl
  · obtain ⟨u, us, hu, hb⟩ := binding_of_furtherArguments hd hrest
    rw [furtherArgument, run_expect_bind _ ht, hu]
    exact he.read_cons room hb

theorem noArguments : (arguments []).Parsed 0 [] := by
  intro room rest hrest
  cases rest with
  | nil => cases hrest
  | cons t rest =>
    refine .of_eq ?_
    rw [List.nil_append, Parser.arguments, run_current_cons_bind, if_pos (Option.some.inj hrest),
      run_pure]

theorem someArguments {e : Expr} {es : List Expr} (hde : Derives (.expr .expression e) d ts)
    (he : (expr .expression e).Parsed d ts) (hd : Derives (.furtherArguments es) d' ts')
    (hes : (furtherArguments es).Parsed d' ts') :
    (arguments (e :: es)).Parsed (max d d') (ts ++ ts') := by
  intro room rest hrest
  obtain ⟨t, us, rfl, ht⟩ := hde.head rfl
  obtain ⟨u, us', hu, hb⟩ := binding_of_furtherArguments hd hrest
  have he' : Meets room d (run (Parser.expression (.within room)) (t :: us ++ (ts' ++ rest)))
      (.ok e, ts' ++ rest) := by
    rw [hu]
    exact he.read_cons room hb
  rw [List.append_assoc, List.cons_append, Parser.arguments, run_current_cons_bind,
    if_neg (ht.expr_ne rfl rfl), ← List.cons_append]
  exact (he'.bind _).trans ((hes room rest hrest).bind _)

theorem stmt {o : Bool} {s : Stmt} (h : (form o s).Parsed d ts) :
    (Phrase.stmt o s).Parsed (d + 1) ts := fun room rest hrest =>
  Meets.nested Nested.statement dispatch rfl (fun _ => rfl) (fun room => h room rest hrest) room

theorem exprForm {e : Expr} {t : Token} (hd : Derives (.expr .expression e) d ts)
    (h : (expr .expression e).Parsed d ts) (ht : t.kind = .semicolon) :
    (form false (.expr e)).Parsed d (ts ++ [t]) := by
  intro room rest _
  rw [List.append_assoc, List.singleton_append, run_dispatch_of_expression hd ht,
    expressionStatement, run_enter_bind]
  refine ((h.read_cons room (by rw [ht]; rfl)).bind _).trans_eq ?_
  rw [run_require_bind _ ht, run_pure]

/-- The end of a declaration of a variable. -/
theorem read_variableEnd {i : Option Expr} (h : (initializer i).Parsed d ts) (a b : Token)
    {t : Token} (ht : t.kind = .semicolon) (room : Nat) :
    Meets room d (run (variableEnd (.within room) a b) (ts ++ t :: rest))
      (.ok (.var a b i), rest) := by
  refine ((h room (t :: rest) (by simp [ht])).bind _).trans_eq ?_
  rw [run_require_bind _ ht, run_pure]

theorem headKind?_initializer {i : Option Expr} (h : Derives (.initializer i) d ts) {t : Token}
    (ht : t.kind = .semicolon) :
    ∃ u us, ts ++ t :: rest = u :: us ∧ u.kind ≠ .leftBracket := by
  cases h with
  | noInitializer => exact ⟨t, rest, rfl, by simp [ht]⟩
  | initializer hu => exact ⟨_, _, rfl, by simp [hu]⟩

theorem scalar {a b t : Token} {i : Option Expr} (ha : a.kind = .identifier)
    (hb : b.kind = .identifier) (hd : Derives (.initializer i) d ts)
    (h : (initializer i).Parsed d ts) (ht : t.kind = .semicolon) :
    (form false (.var a b i)).Parsed d (a :: b :: (ts ++ [t])) := by
  intro room rest _
  simp only [List.cons_append, List.append_assoc, List.nil_append]
  rw [run_dispatch_of_names _ ha hb, declaration, run_enter_bind, run_expect_bind _ ha,
    run_expect_bind _ hb]
  obtain ⟨u, us, hu, hk⟩ := headKind?_initializer hd ht
  rw [hu, run_current_cons_bind, if_neg hk, ← hu]
  exact h.read_variableEnd a b ht room

theorem array {a b o c t : Token} {l : IntLiteral} (ha : a.kind = .identifier)
    (hb : b.kind = .identifier) (ho : o.kind = .leftBracket) (hl : Reads l)
    (hc : c.kind = .rightBracket) (ht : t.kind = .semicolon) :
    (form false (.array a b l)).Parsed 0 [a, b, o, l.token, c, t] := by
  intro room rest _
  refine .of_eq ?_
  simp only [List.cons_append, List.nil_append]
  rw [run_dispatch_of_names _ ha hb, declaration, run_enter_bind, run_expect_bind _ ha,
    run_expect_bind _ hb, run_current_cons_bind, if_pos ho, arrayEnd, run_expect_bind _ ho,
    run_bind_of_ok _ (run_integer hl _), run_require_bind _ hc, run_require_bind _ ht, run_pure]

theorem blockForm {ss : List Stmt} (hd : Derives (.block ss) d ts) (h : (block ss).Parsed d ts) :
    (form false (.block ss)).Parsed d ts := by
  intro room rest _
  obtain ⟨t, us, rfl, ht⟩ := hd.head rfl
  rw [List.cons_append, run_dispatch_of_kind _ ht rfl]
  exact (h room rest).map Stmt.block

/-- A condition in its parentheses. -/
theorem read_condition {e : Expr} (h : (expr .expression e).Parsed d ts) {o c : Token}
    (ho : o.kind = .leftParen) (hc : c.kind = .rightParen) (word closed : Place) (room : Nat) :
    Meets room d (run (condition (.within room) word closed) (o :: (ts ++ c :: rest)))
      (.ok e, rest) := by
  rw [condition, run_require_bind _ ho]
  refine ((h.read_cons room (by rw [hc]; rfl)).bind _).trans_eq ?_
  rw [run_require_bind _ hc, run_pure]

theorem loop {w o c : Token} {opens : Bool} {e : Expr} {s : Stmt} (hw : w.kind = .reservedWhile)
    (ho : o.kind = .leftParen) (he : (expr .expression e).Parsed d ts) (hc : c.kind = .rightParen)
    (hs : (Phrase.stmt opens s).Parsed d' ts') :
    (form opens (.loop e s)).Parsed (max d d') (w :: o :: (ts ++ c :: ts')) := by
  intro room rest hrest
  simp only [List.cons_append, List.append_assoc]
  rw [run_dispatch_of_kind _ hw rfl]
  simp only [whileLoop]
  rw [run_enter_bind, run_expect_bind _ hw]
  exact ((he.read_condition ho hc _ _ room).bind _).trans ((hs room rest hrest).map _)

theorem ifThen {w o c : Token} {opens : Bool} {e : Expr} {s : Stmt} (hw : w.kind = .reservedIf)
    (ho : o.kind = .leftParen) (he : (expr .expression e).Parsed d ts) (hc : c.kind = .rightParen)
    (hs : (Phrase.stmt opens s).Parsed d' ts') :
    (form true (.ifThen e s)).Parsed (max d d') (w :: o :: (ts ++ c :: ts')) := by
  intro room rest hrest
  simp only [List.cons_append, List.append_assoc]
  rw [run_dispatch_of_kind _ hw rfl]
  simp only [conditional]
  rw [run_enter_bind, run_expect_bind _ hw]
  refine ((he.read_condition ho hc _ _ room).bind _).trans ?_
  refine ((hs room rest fun _ => hrest rfl).bind _).trans_eq ?_
  rw [run_current?_bind, if_neg (hrest rfl), run_pure]

theorem ifElse {d'' : Nat} {ts'' : List Token} {w o c l : Token} {opens : Bool} {e : Expr}
    {s s' : Stmt} (hw : w.kind = .reservedIf) (ho : o.kind = .leftParen)
    (he : (expr .expression e).Parsed d ts) (hc : c.kind = .rightParen)
    (hs : (Phrase.stmt false s).Parsed d' ts') (hl : l.kind = .reservedElse)
    (hs' : (Phrase.stmt opens s').Parsed d'' ts'') :
    (form opens (.ifElse e s s')).Parsed (max d (max d' d''))
      (w :: o :: (ts ++ c :: (ts' ++ l :: ts''))) := by
  intro room rest hrest
  simp only [List.cons_append, List.append_assoc]
  rw [run_dispatch_of_kind _ hw rfl]
  simp only [conditional]
  rw [run_enter_bind, run_expect_bind _ hw]
  refine ((he.read_condition ho hc _ _ room).bind _).trans ?_
  refine ((hs room (l :: (ts'' ++ rest)) (by simp)).bind _).trans ?_
  rw [run_current?_bind, List.head?_cons, Option.map_some, hl, if_pos rfl, run_expect_bind _ hl]
  exact (hs' room rest hrest).map _

theorem forLoop {d₀ d₁ d₂ d₃ : Nat} {ts₀ ts₁ ts₂ ts₃ : List Token} {w o a c : Token}
    {opens : Bool} {init s : Stmt} {e i : Expr} (hw : w.kind = .reservedFor)
    (ho : o.kind = .leftParen) (hinit : (start init).Parsed d₀ ts₀)
    (he : (expr .expression e).Parsed d₁ ts₁) (ha : a.kind = .semicolon)
    (hi : (expr .expression i).Parsed d₂ ts₂) (hc : c.kind = .rightParen)
    (hs : (Phrase.stmt opens s).Parsed d₃ ts₃) :
    (form opens (forAsWhile init e i s)).Parsed (max d₀ (max d₁ (max d₂ d₃)))
      (w :: o :: (ts₀ ++ (ts₁ ++ a :: (ts₂ ++ c :: ts₃)))) := by
  intro room rest hrest
  simp only [List.cons_append, List.append_assoc]
  rw [run_dispatch_of_kind _ hw rfl]
  simp only [Parser.forLoop]
  rw [run_enter_bind, run_expect_bind _ hw, run_require_bind _ ho]
  refine ((hinit room _).bind _).trans ?_
  refine ((he.read_cons room (by rw [ha]; rfl)).bind _).trans ?_
  rw [run_require_bind _ ha]
  refine ((hi.read_cons room (by rw [hc]; rfl)).bind _).trans ?_
  rw [run_require_bind _ hc]
  exact ((hs room rest hrest).bind _).trans_eq (run_pure _ _)

theorem result {k t : Token} {v : Option Expr} (hk : k.kind = .reservedReturn)
    (h : (value v).Parsed d ts) (ht : t.kind = .semicolon) :
    (form false (.result k v)).Parsed d (k :: (ts ++ [t])) := by
  intro room rest _
  simp only [List.cons_append, List.append_assoc, List.nil_append]
  rw [run_dispatch_of_kind _ hk rfl]
  simp only [Parser.result]
  rw [run_enter_bind, run_expect_bind _ hk]
  refine ((h room (t :: rest) (by simp [ht])).bind _).trans_eq ?_
  rw [run_require_bind _ ht, run_pure]

theorem run_emptyStatement {t : Token} (ht : t.kind = .semicolon) (rest : List Token) :
    run emptyStatement (t :: rest) = (.ok .empty, rest) := by
  rw [emptyStatement, run_expect_bind _ ht, run_pure]

theorem empty {t : Token} (ht : t.kind = .semicolon) : (form false .empty).Parsed 0 [t] := by
  intro room rest _
  exact .of_eq ((run_dispatch_of_kind rest ht rfl).trans (run_emptyStatement ht rest))

theorem noInitializer : (initializer none).Parsed 0 [] := by
  intro room rest hrest
  cases rest with
  | nil => cases hrest
  | cons t rest =>
    refine .of_eq ?_
    rw [List.nil_append, initializer?, run_current_cons_bind, Option.some.inj hrest,
      if_neg (by decide), run_pure]

theorem someInitializer {t : Token} {e : Expr} (ht : t.kind = .equals)
    (h : (expr .expression e).Parsed d ts) : (initializer (some e)).Parsed d (t :: ts) := by
  intro room rest hrest
  cases rest with
  | nil => cases hrest
  | cons u rest =>
    rw [List.cons_append, initializer?, run_current_cons_bind, if_pos ht, run_expect_bind _ ht]
    exact (h.read_cons room (by rw [Option.some.inj hrest]; rfl)).map some

theorem noValue : (value none).Parsed 0 [] := by
  intro room rest hrest
  cases rest with
  | nil => cases hrest
  | cons t rest =>
    refine .of_eq ?_
    rw [List.nil_append, returned?, run_current_cons_bind, if_pos (Option.some.inj hrest),
      run_pure]

theorem someValue {e : Expr} (hd : Derives (.expr .expression e) d ts)
    (h : (expr .expression e).Parsed d ts) : (value (some e)).Parsed d ts := by
  intro room rest hrest
  cases rest with
  | nil => cases hrest
  | cons u rest =>
    obtain ⟨t, us, rfl, ht⟩ := hd.head rfl
    rw [List.cons_append, returned?, run_current_cons_bind, if_neg (ht.expr_ne rfl rfl),
      ← List.cons_append]
    exact (h.read_cons room (by rw [Option.some.inj hrest]; rfl)).map some

theorem varStart {a b t : Token} {i : Option Expr} (ha : a.kind = .identifier)
    (hb : b.kind = .identifier) (h : (initializer i).Parsed d ts) (ht : t.kind = .semicolon) :
    (start (.var a b i)).Parsed d (a :: b :: (ts ++ [t])) := by
  intro room rest
  simp only [List.cons_append, List.append_assoc, List.nil_append]
  rw [forStart, run_enter_bind, run_atDeclaration_bind_two _ ha, if_pos (by simpa using hb),
    variableStart, run_expect_bind _ ha, run_expect_bind _ hb]
  exact h.read_variableEnd a b ht room

theorem emptyStart {t : Token} (ht : t.kind = .semicolon) : (start .empty).Parsed 0 [t] := by
  intro room rest
  refine .of_eq ?_
  rw [List.singleton_append, forStart, run_enter_bind,
    run_atDeclaration_bind_of_ne _ (by simp [ht]), if_neg (by decide), run_current_cons_bind,
    if_pos ht, run_emptyStatement ht]

/-- An expression and its semicolon are not taken for a declaration. -/
theorem run_forStart_of_expression {inner : Nested} {e : Expr} {t : Token}
    (h : Derives (.expr .expression e) d ts) (ht : t.kind = .semicolon) :
    run (forStart inner) (ts ++ t :: rest) = run (expressionStatement inner) (ts ++ t :: rest) := by
  have hpair : NoNamePair (ts ++ t :: rest) :=
    (h.noNamePair rfl).append_cons (h.ne_nil rfl) (by simp [ht])
  obtain ⟨u, us, rfl, hu⟩ := h.head rfl
  rw [forStart, run_enter_bind]
  rw [List.cons_append] at hpair ⊢
  have hne : u.kind ≠ .semicolon := hu.expr_ne rfl rfl
  by_cases hk : u.kind = .identifier
  · rcases hus : us ++ t :: rest with _ | ⟨v, vs⟩
    · simp at hus
    · rw [hus] at hpair
      rw [run_atDeclaration_bind_two _ hk, if_neg (by simpa using hpair rfl hk),
        run_current_cons_bind, if_neg hne]
  · rw [run_atDeclaration_bind_of_ne _ hk, if_neg (by decide), run_current_cons_bind, if_neg hne]

theorem exprStart {e : Expr} {t : Token} (hd : Derives (.expr .expression e) d ts)
    (h : (expr .expression e).Parsed d ts) (ht : t.kind = .semicolon) :
    (start (.expr e)).Parsed d (ts ++ [t]) := by
  intro room rest
  rw [List.append_assoc, List.singleton_append, run_forStart_of_expression hd ht,
    expressionStatement, run_enter_bind]
  refine ((h.read_cons room (by rw [ht]; rfl)).bind _).trans_eq ?_
  rw [run_require_bind _ ht, run_pure]

theorem statement_progresses (room : Nat) : Progresses (statement (.within room)) :=
  (statement_sound (inner_within room)).progresses fun _ _ _ _ ⟨_, h, _⟩ => h.ne_nil rfl

theorem noStmts : (stmts []).Parsed 0 [] := by
  intro room rest hrest
  cases rest with
  | nil => cases hrest
  | cons t rest =>
    refine .of_eq (run_many_nil looks_insideBlock (statement_progresses room) ?_)
    rw [List.nil_append, run_insideBlock, Option.some.inj hrest]
    rfl

/-- No `else` stands behind a statement of a block. -/
theorem headKind?_stmts {ss : List Stmt} (h : Derives (.stmts ss) d ts)
    (hrest : headKind? rest = some .rightBrace) :
    headKind? (ts ++ rest) ≠ some .reservedElse := by
  cases h with
  | noStmts => simp [hrest]
  | stmts hs _ =>
    obtain ⟨t, us, rfl, ht⟩ := hs.head rfl
    simpa using ht.stmt_ne rfl rfl rfl

theorem someStmts {o : Bool} {s : Stmt} {ss : List Stmt} (hd : Derives (.stmt o s) d ts)
    (hs : (Phrase.stmt o s).Parsed d ts) (hds : Derives (.stmts ss) d' ts')
    (hss : (stmts ss).Parsed d' ts') : (stmts (s :: ss)).Parsed (max d d') (ts ++ ts') := by
  intro room rest hrest
  obtain ⟨t, us, rfl, ht⟩ := hd.head rfl
  rw [List.append_assoc]
  refine Meets.many_cons looks_insideBlock (statement_progresses room) ?_
    (hs room _ fun _ => headKind?_stmts hds hrest) (hss room rest hrest) rfl
  rw [List.cons_append, run_insideBlock, decide_eq_true (ht.stmt_ne rfl rfl rfl)]

theorem braces {o c : Token} {ss : List Stmt} (ho : o.kind = .leftBrace)
    (h : (stmts ss).Parsed d ts) (hc : c.kind = .rightBrace) :
    (block ss).Parsed d (o :: (ts ++ [c])) := by
  intro room rest
  simp only [List.cons_append, List.append_assoc, List.nil_append]
  rw [Parser.block, run_enter_bind, run_expect_bind _ ho]
  refine ((h room (c :: rest) (by simp [hc])).bind _).trans_eq ?_
  rw [run_expect_bind _ hc, run_pure]

theorem furtherParam_progresses : Progresses furtherParam := by
  have hp : Sound 0 furtherParam fun _ c _ _ => c ≠ [] :=
    .expect_bind fun t _ => param_sound.mono fun _ _ _ _ _ => by simp [Language.after]
  exact hp.progresses fun _ _ _ _ h => h

theorem noFurtherParams : (furtherParams []).Parsed 0 [] := by
  intro room rest hrest
  cases rest with
  | nil => cases hrest
  | cons t rest =>
    refine .of_eq (run_many_nil looks_atComma furtherParam_progresses ?_)
    rw [List.nil_append, run_atComma, Option.some.inj hrest]
    rfl

theorem run_param {p : Param} (ht : p.type.kind = .identifier) (hn : p.name.kind = .identifier)
    (rest : List Token) : run param (p.type :: p.name :: rest) = (.ok p, rest) := by
  rw [param, run_expect_bind _ ht, run_expect_bind _ hn, run_pure]

theorem someFurtherParams {t : Token} {p : Param} {ps : List Param} (ht : t.kind = .comma)
    (hp : p.type.kind = .identifier) (hn : p.name.kind = .identifier)
    (h : (furtherParams ps).Parsed 0 ts) :
    (furtherParams (p :: ps)).Parsed 0 (t :: p.type :: p.name :: ts) := by
  intro room rest hrest
  refine Meets.many_cons (d := 0) looks_atComma furtherParam_progresses ?_ (.of_eq ?_)
    (h room rest hrest) rfl
  · rw [List.cons_append, run_atComma, ht]
    rfl
  · exact (run_expect_bind _ ht).trans (run_param hp hn _)

theorem noParams : (params []).Parsed 0 [] := by
  intro room rest hrest
  cases rest with
  | nil => cases hrest
  | cons t rest =>
    refine .of_eq ?_
    rw [List.nil_append, paramList, run_current_cons_bind, if_pos (Option.some.inj hrest),
      run_pure]

theorem someParams {p : Param} {ps : List Param} (hp : p.type.kind = .identifier)
    (hn : p.name.kind = .identifier) (h : (furtherParams ps).Parsed 0 ts) :
    (params (p :: ps)).Parsed 0 (p.type :: p.name :: ts) := by
  intro room rest hrest
  simp only [List.cons_append]
  rw [paramList, run_current_cons_bind, if_neg (by simp [hp]), Parser.params, run_enter_bind,
    run_bind_of_ok _ (run_param hp hn _)]
  exact ((h room rest hrest).bind _).trans_eq (run_pure _ _)

theorem function {f : Function} {o c : Token} (hr : f.returnType.kind = .identifier)
    (hn : f.name.kind = .identifier) (ho : o.kind = .leftParen)
    (hps : (params f.params).Parsed 0 ts) (hc : c.kind = .rightParen)
    (hb : (block f.body).Parsed d ts') :
    (Phrase.function f).Parsed d (f.returnType :: f.name :: o :: (ts ++ c :: ts')) := by
  intro room rest
  simp only [List.cons_append, List.append_assoc]
  rw [Parser.function, run_enter_bind, run_expect_bind _ hr, run_expect_bind _ hn,
    run_expect_bind _ ho]
  rw [← Nat.zero_max d]
  refine ((hps room (c :: (ts' ++ rest)) (by simp [hc])).bind _).trans ?_
  rw [run_expect_bind _ hc]
  exact ((hb room rest).bind _).trans_eq (run_pure _ _)

theorem function_progresses (room : Nat) : Progresses (Parser.function (.within room)) :=
  (function_sound (inner_within room)).progresses fun _ _ _ _ h => Derives.ne_nil h rfl

theorem noFunctions : (functions []).Parsed 0 [] := fun room =>
  .of_eq (run_many_nil looks_moreTokens (function_progresses room) (run_moreTokens []))

theorem someFunctions {f : Function} {fs : List Function} (hd : Derives (.function f) d ts)
    (hf : (Phrase.function f).Parsed d ts) (hfs : (functions fs).Parsed d' ts') :
    (functions (f :: fs)).Parsed (max d d') (ts ++ ts') := by
  intro room
  obtain ⟨t, us, rfl, -⟩ := hd.head rfl
  exact Meets.many_cons looks_moreTokens (function_progresses room) (run_moreTokens _)
    (hf room ts') (hfs room) rfl

end Phrase.Parsed

/-- Whatever can be derived is read by the parsers of the phrase, with the value derived and just
the levels derived. -/
theorem Derives.parsed {ph : Phrase} {d : Nat} {ts : List Token} (h : Derives ph d ts) :
    ph.Parsed d ts := by
  induction h with
  | expression _ ih => exact ih.expression
  | tighter hr hd ih => exact ih.tighter hr hd
  | assign _ ht _ ihl ihr => exact ihl.assign ht ihr
  | left hr _ ht _ ihl ihr => exact ihl.left hr ht ihr
  | sign ht _ ih => exact ih.sign ht
  | pow _ ht _ ihl ihr => exact ihl.pow ht ihr
  | int hl => exact .int hl
  | float ht hx => exact .float ht hx
  | string ht => exact .string ht
  | var ht => exact .var ht
  | index ht ho _ hc ih => exact ih.index ht ho hc
  | call ht ho _ hc ih => exact ih.call ht ho hc
  | parens ho _ hc ih => exact ih.parens ho hc
  | noArguments => exact .noArguments
  | someArguments hd hds ih ihs => exact ih.someArguments hd hds ihs
  | noFurtherArguments => exact .noFurtherArguments
  | furtherArguments ht _ hds ih ihs => exact ih.further ht hds ihs
  | stmt _ ih => exact ih.stmt
  | expr hd ht ih => exact ih.exprForm hd ht
  | scalar ha hb hd ht ih => exact ih.scalar ha hb hd ht
  | array ha hb ho hl hc ht => exact .array ha hb ho hl hc ht
  | blockForm hd ih => exact ih.blockForm hd
  | loop hw ho _ hc _ ih ihs => exact .loop hw ho ih hc ihs
  | forLoop hw ho _ _ ha _ hc _ ih₀ ih₁ ih₂ ih₃ => exact .forLoop hw ho ih₀ ih₁ ha ih₂ hc ih₃
  | ifThen hw ho _ hc _ ih ihs => exact .ifThen hw ho ih hc ihs
  | ifElse hw ho _ hc _ hl _ ih ihs ihs' => exact .ifElse hw ho ih hc ihs hl ihs'
  | result hk _ ht ih => exact .result hk ih ht
  | empty ht => exact .empty ht
  | noInitializer => exact .noInitializer
  | initializer ht _ ih => exact ih.someInitializer ht
  | noValue => exact .noValue
  | value hd ih => exact ih.someValue hd
  | varStart ha hb _ ht ih => exact ih.varStart ha hb ht
  | emptyStart ht => exact .emptyStart ht
  | exprStart hd ht ih => exact ih.exprStart hd ht
  | block ho _ hc ih => exact ih.braces ho hc
  | noStmts => exact .noStmts
  | stmts hd hds ih ihs => exact ih.someStmts hd hds ihs
  | noParams => exact .noParams
  | params hp hn _ ih => exact ih.someParams hp hn
  | noFurtherParams => exact .noFurtherParams
  | furtherParams ht hp hn _ ih => exact ih.someFurtherParams ht hp hn
  | function hr hn ho _ hc _ ihp ihb => exact .function hr hn ho ihp hc ihb
  | noFunctions => exact .noFunctions
  | functions hd _ ih ihs => exact ih.someFunctions hd ihs

end BraceLang.Grammar
