import BraceLang.Proofs.Recognition
import BraceLang.Proofs.Relocation
import BraceLang.Proofs.Words

/-!
# Layout does not count

Moved tokens are read as the tokens are, with the result moved (`ReadsMoved`): a tree of the moved
tokens, or the same complaint about the moved token. Two lists with the same words in them are both
got by moving one list, whose tokens are numbered. So they are read alike (`ReadsAlike`), and the
numbers tell that an error is about the same place in both.
-/

namespace BraceLang.Grammar

open BraceLang.Grammar.Parser

variable {α : Type} {f : Token → Token}

theorem Relocates.unplaced_comp (hf : Relocates f) : Token.unplaced ∘ f = Token.unplaced := by
  funext t
  simp only [Function.comp_apply, Token.unplaced, hf.kind, hf.lexeme]

theorem rest_of_run_eq_moved {β : Type} {m : α → β} {p : Parser α} {q : Parser β}
    {ts us : List Token} (h : run q us = moved f m (run p ts)) :
    (q us).rest = (p ts).rest.map f := by
  have hrest := congrArg Prod.snd h
  rcases hrun : run p ts with ⟨e | a, rest⟩ <;> rw [hrun] at hrest <;>
    exact hrest.trans (congrArg (List.map f) (congrArg Prod.snd hrun).symm)

/-- The same complaint about the moved token, which stands where this token does, or past the last
token of the moved ones. -/
structure SyntaxError.Moves (f : Token → Token) (ts : List Token) (e e' : SyntaxError) : Prop where
  message : e'.message = e.message
  token : e'.token = e.token.map f
  location : e'.location = (e'.token.map Token.start).getD (endLocation (ts.map f))

/-- From the moved tokens the parser reads what it reads from the tokens, with `m` for what becomes
of its values, and leaves the same tokens. -/
structure ReadsMoved (f : Token → Token) (m : α → α) (p : Parser α) (ts : List Token) : Prop where
  ok : ∀ {a}, (p ts).answer ts = .ok a → (p (ts.map f)).answer (ts.map f) = .ok (m a)
  error : ∀ {e}, (p ts).answer ts = .error e →
    ∃ e', (p (ts.map f)).answer (ts.map f) = .error e' ∧ e.Moves f ts e'
  rest : (p (ts.map f)).rest = (p ts).rest.map f

theorem Moves.readsMoved {m : α → α} {p : Parser α} (h : Moves f m p p) (hf : Relocates f)
    (ts : List Token) : ReadsMoved f m p ts := by
  have hmap := h.run_map ts
  constructor
  · intro a ha
    rw [run_of_answer_ok ha] at hmap
    exact answer_of_run_ok hmap
  · intro e he
    obtain ⟨failure, hrun, rfl⟩ := run_of_answer_error he
    rw [hrun] at hmap
    exact ⟨_, answer_of_run_error hmap, failure.cause.message_mapTokens hf, rfl, rfl⟩
  · exact rest_of_run_eq_moved hmap

def numbered (ts : List Token) : List Token :=
  ts.mapIdx fun i t => ⟨t.kind, ⟨i, 0⟩, ⟨i, 0⟩, t.lexeme⟩

def ofNumber (ts : List Token) (t : Token) : Token :=
  match ts[t.start.line]? with
  | some u => if u.word = t.word then u else t
  | none => t

theorem relocates_ofNumber (ts : List Token) : Relocates (ofNumber ts) := by
  have hword : ∀ t, (ofNumber ts t).word = t.word := by
    intro t
    unfold ofNumber
    split
    · split
      · assumption
      · rfl
    · rfl
  exact ⟨fun t => congrArg Prod.fst (hword t), fun t => congrArg Prod.snd (hword t)⟩

theorem getElem?_numbered (ts : List Token) (i : Nat) :
    (numbered ts)[i]? =
      (ts.map Token.word)[i]?.map fun w => ⟨w.1, ⟨i, 0⟩, ⟨i, 0⟩, w.2⟩ := by
  rw [numbered, List.getElem?_mapIdx, List.getElem?_map, Option.map_map]
  rfl

theorem numbered_eq_of_words_eq {ts us : List Token} (h : ts.map Token.word = us.map Token.word) :
    numbered ts = numbered us :=
  List.ext_getElem? fun i => by rw [getElem?_numbered, getElem?_numbered, h]

theorem map_ofNumber_getElem? (ts : List Token) (i : Nat) :
    (numbered ts)[i]?.map (ofNumber ts) = ts[i]? := by
  rw [getElem?_numbered, List.getElem?_map]
  cases hi : ts[i]? with
  | none => rfl
  | some t => simp [ofNumber, hi, Token.word]

theorem numbered_map_ofNumber (ts : List Token) : (numbered ts).map (ofNumber ts) = ts :=
  List.ext_getElem? fun i => by rw [List.getElem?_map, map_ofNumber_getElem?]

/-- Both lists give trees that are the same without their places, or both give the same complaint
about the token of one number, or about the missing of a further one. The parser stops at the same
number. -/
structure ReadsAlike (unplaced : α → α) (p : Parser α) (ts us : List Token) : Prop where
  answers : (∃ a b, (p ts).answer ts = .ok a ∧ (p us).answer us = .ok b ∧ unplaced a = unplaced b) ∨
    ∃ (e e' : SyntaxError) (i : Nat), (p ts).answer ts = .error e ∧ (p us).answer us = .error e' ∧
      e.message = e'.message ∧ e.token = ts[i]? ∧ e'.token = us[i]?
  position : ts.length - (p ts).rest.length = us.length - (p us).rest.length

theorem readsAlike_of_words_eq {m : (Token → Token) → α → α} {p : Parser α}
    (hp : ∀ f, Relocates f → Moves f (m f) p p)
    (hm : ∀ f a, m Token.unplaced (m f a) = m (Token.unplaced ∘ f) a) {ts us : List Token}
    (h : ts.map Token.word = us.map Token.word) : ReadsAlike (m Token.unplaced) p ts us := by
  have hlength : ts.length = us.length := by simpa using congrArg List.length h
  have hts := (hp _ (relocates_ofNumber ts)).run_map (numbered ts)
  have hus := (hp _ (relocates_ofNumber us)).run_map (numbered us)
  rw [numbered_map_ofNumber] at hts hus
  rw [← numbered_eq_of_words_eq h] at hus
  constructor
  · rcases hrun : run p (numbered ts) with ⟨e | a, rest⟩ <;> rw [hrun] at hts hus
    · obtain ⟨i, hi⟩ : ∃ i : Nat, e.token = (numbered ts)[i]? := by
        cases ht : e.token with
        | none => exact ⟨_, (List.getElem?_eq_none (Nat.le_refl _)).symm⟩
        | some t =>
          have hmem := mem_of_failure (fun f hf => ⟨m f, hp f hf⟩) hrun ht
          obtain ⟨i, hi⟩ := List.mem_iff_getElem?.mp hmem
          exact ⟨i, hi.symm⟩
      have hi' := hi
      rw [numbered_eq_of_words_eq h] at hi'
      refine .inr ⟨_, _, i, answer_of_run_error hts, answer_of_run_error hus, ?_,
        (congrArg (Option.map (ofNumber ts)) hi).trans (map_ofNumber_getElem? ts i),
        (congrArg (Option.map (ofNumber us)) hi').trans (map_ofNumber_getElem? us i)⟩
      exact (e.cause.message_mapTokens (relocates_ofNumber ts)).trans
        (e.cause.message_mapTokens (relocates_ofNumber us)).symm
    · refine .inl ⟨_, _, answer_of_run_ok hts, answer_of_run_ok hus, ?_⟩
      rw [hm, hm, (relocates_ofNumber ts).unplaced_comp, (relocates_ofNumber us).unplaced_comp]
  · rw [rest_of_run_eq_moved hts, rest_of_run_eq_moved hus, List.length_map, List.length_map,
      hlength]

theorem moves_expressionParser (hf : Relocates f) (limit : Nat) :
    Moves f (Expr.mapTokens f) (expressionParser limit) (expressionParser limit) :=
  moves_wholeExpression (movesInner_within hf limit)

/-- Programs and expressions are read by their words alone. Where the tokens stand only shows in the
places that the result hands on. -/
theorem parse_by_words :
    (∀ f, Relocates f → ∀ ts,
      ReadsMoved f (Program.mapTokens f) (programParser maxNesting) ts ∧
      ReadsMoved f (Expr.mapTokens f) (expressionParser maxNesting) ts) ∧
    ∀ ts us : List Token, ts.map Token.word = us.map Token.word →
      ReadsAlike Program.unplaced (programParser maxNesting) ts us ∧
      ReadsAlike Expr.unplaced (expressionParser maxNesting) ts us := by
  constructor
  · intro f hf ts
    exact ⟨(moves_programParser hf maxNesting).readsMoved hf ts,
      (moves_expressionParser hf maxNesting).readsMoved hf ts⟩
  · intro ts us h
    exact ⟨readsAlike_of_words_eq (fun _ hf => moves_programParser hf maxNesting)
        (fun f p => p.mapTokens_mapTokens f Token.unplaced) h,
      readsAlike_of_words_eq (fun _ hf => moves_expressionParser hf maxNesting)
        (fun f e => e.mapTokens_mapTokens f Token.unplaced) h⟩

def unended : List Token :=
  [.identifier, .identifier, .leftParen, .rightParen, .leftBrace, .identifier, .rightBrace].map
    Parser.someToken

def fourBelow (t : Token) : Token :=
  ⟨t.kind, ⟨t.start.line + 4, t.start.column⟩, ⟨t.stop.line + 4, t.stop.column⟩, t.lexeme⟩

/-- The brace stands where the semicolon should, in both lists. -/
theorem parse_by_words_unended :
    (∃ e, parseProgram (unended.map fourBelow) = .error e ∧
      e.message = "Expected ';' after expression" ∧ e.location = ⟨5, 1⟩ ∧
      e.token = some (fourBelow (Parser.someToken .rightBrace))) ∧
    ReadsAlike Program.unplaced (programParser maxNesting) unended (unended.map fourBelow) := by
  have hf : Relocates fourBelow := ⟨fun _ => rfl, fun _ => rfl⟩
  have hwords : unended.map Token.word = (unended.map fourBelow).map Token.word := rfl
  obtain ⟨e, he, hmoves⟩ := (parse_by_words.1 fourBelow hf unended).1.error (e := ⟨_, _, _⟩) rfl
  have hlocation : e.location = ⟨5, 1⟩ := by
    rw [hmoves.location, hmoves.token]
    rfl
  exact ⟨⟨e, he, hmoves.message, hlocation, hmoves.token⟩, (parse_by_words.2 _ _ hwords).1⟩

end BraceLang.Grammar
