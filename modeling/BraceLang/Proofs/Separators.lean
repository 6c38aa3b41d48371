import BraceLang.Proofs.LongestTokens

/-!
# Layout between tokens

Between two tokens any run of blanks and comments may stand that starts with a blank. It ends the
token in front of it, whatever its kind, and nothing of it is left when the next one starts. So a
text that is put together from words, with such gaps between them, has just these words as its
tokens. Its only errors are those inside of them, the points after the first one of a number.
-/

namespace BraceLang

/-- Blanks, and comments with the newlines that end them. -/
inductive Filler : List Char → Prop
  | nil : Filler []
  | blank {c cs} : c ∈ [' ', '\t', '\r', '\n'] → Filler cs → Filler (c :: cs)
  | comment {body cs} : '\n' ∉ body → Filler cs → Filler ('/' :: '/' :: body ++ '\n' :: cs)

structure Gap (text : List Char) : Prop where
  starts : ∃ c ∈ text.head?, c ∈ [' ', '\t', '\r', '\n']
  filler : Filler text

theorem isBlank_of_mem {c : Char} (h : c ∈ [' ', '\t', '\r', '\n']) : isBlank c := by
  simp only [List.mem_cons, List.not_mem_nil, or_false] at h
  rcases h with rfl | rfl | rfl | rfl <;> decide

/-- No token goes on with a blank. -/
theorem Kind.endsBefore_of_isBlank (k : Kind) {c : Char} (h : isBlank c) : k.endsBefore c := by
  have hmem := Chunk.mem_of_isBlank h
  simp only [List.mem_cons, List.not_mem_nil, or_false] at hmem
  rcases hmem with rfl | rfl | rfl | rfl <;> cases k <;> decide

theorem chunks_comment {body rest : List Char} (hbody : '\n' ∉ body) (hrest : EndsLine rest) :
    chunks ('/' :: '/' :: body ++ rest) = ⟨.comment, '/' :: '/' :: body⟩ :: chunks rest := by
  have htake : ('/' :: body ++ rest).takeWhile (· ≠ '\n') = '/' :: body := by
    apply takeWhile_append_of_head
    · intro c hc
      have hne : c ≠ '\n' := by
        rintro rfl
        rcases List.mem_cons.mp hc with hc | hc
        · cases hc
        · exact hbody hc
      exact decide_eq_true hne
    · intro c hc
      simp [hrest c hc]
  have hextent : Chunk.extent '/' ('/' :: body ++ rest) = (.comment, ('/' :: body).length) := by
    have hslash : Chunk.extent '/' ('/' :: body ++ rest) =
        (.comment, (('/' :: body ++ rest).takeWhile (· ≠ '\n')).length) := rfl
    rw [hslash, htake]
  rw [List.cons_append, Chunk.chunks_cons, hextent, List.take_left, List.drop_left]

/-- What stands behind a gap is read as if the gap were not there. -/
theorem Filler.place {text : List Char} (h : Filler text) (p : Location) (rest : List Char) :
    Lexed.place p (chunks (text ++ rest)) = Lexed.place (p.after text) (chunks rest) := by
  induction h generalizing p with
  | nil => rfl
  | @blank c cs hc _ ih =>
    have hblank : ∀ d ∈ [c], isBlank d := by
      intro d hd
      rw [List.mem_singleton.mp hd]
      exact isBlank_of_mem hc
    exact (place_blanks hblank p (cs ++ rest)).trans (ih (p.next c))
  | @comment body cs hbody _ ih =>
    have hline : EndsLine ('\n' :: (cs ++ rest)) := by
      rintro c ⟨⟩
      rfl
    have hnewline : ∀ d ∈ ['\n'], isBlank d := List.forall_mem_singleton.mpr rfl
    have hsplit : '/' :: '/' :: body ++ '\n' :: cs ++ rest =
        '/' :: '/' :: body ++ '\n' :: (cs ++ rest) := List.append_assoc ..
    rw [hsplit, chunks_comment hbody hline, Location.after_append]
    exact (place_blanks hnewline _ (cs ++ rest)).trans (ih _)

namespace Token

def extraPoints (t : Token) : List Nat :=
  if t.kind = .floatLiteral then
    ((List.range t.lexeme.toList.length).filter fun i => t.lexeme.toList[i]? = some '.').tail
  else []

def errors (t : Token) : List LexicalError :=
  t.extraPoints.map fun i => ⟨.extraPoint, ⟨t.start.line, t.start.column + i⟩⟩

end Token

theorem Chunk.points_eq_of_notMem (p : Location) {text : List Char} (h : '\n' ∉ text) :
    points p text = ((List.range text.length).filter fun i => text[i]? = some '.').map
      fun i => ⟨p.line, p.column + i⟩ := by
  induction text generalizing p with
  | nil => rfl
  | cons c text ih =>
    obtain ⟨hc, htext⟩ := List.ne_and_not_mem_of_not_mem_cons h
    have hnext : p.next c = ⟨p.line, p.column + 1⟩ := if_neg hc.symm
    rw [points, hnext, ih _ htext, List.length_cons, List.range_succ_eq_map, List.filter_cons,
      List.filter_map, List.getElem?_cons_zero]
    by_cases hpoint : c = '.' <;>
      simp [hpoint, Function.comp_def, Nat.add_comm, Nat.add_left_comm]

theorem Kind.Spells.errors_eq {k : Kind} {text : List Char} (h : k.Spells text) (p : Location) :
    (⟨.token k, text⟩ : Chunk).errors p =
      Token.errors ⟨k, p, p.after text, String.ofList text⟩ := by
  by_cases hk : k = .floatLiteral
  · subst hk
    simp only [Chunk.errors, Token.errors, Token.extraPoints, if_true, String.toList_ofList]
    rw [Chunk.points_eq_of_notMem p h.notMem_newline, ← List.map_tail, List.map_map]
    rfl
  · simp only [Token.errors, Token.extraPoints, if_neg hk, List.map_nil]
    cases k <;> first | rfl | exact absurd rfl hk

/-- The texts one behind another, each but the last with its gap behind it. -/
def spread (texts gaps : List String) : String :=
  String.join (List.zipWith (· ++ ·) texts (gaps ++ [""]))

theorem spread_singleton (text : String) : spread [text] [] = text := by
  simp [spread, String.join_cons]

theorem spread_cons (text gap : String) (texts gaps : List String) :
    spread (text :: texts) (gap :: gaps) = text ++ gap ++ spread texts gaps :=
  String.join_cons

/-- The words stand in the text, and nothing is wrong but what is wrong inside of them. -/
structure Reads (lexed : Lexed) (words : List (Kind × String)) : Prop where
  words : lexed.tokens.map Token.word = words
  errors : lexed.errors = lexed.tokens.flatMap Token.errors

theorem Reads.place_word {w : Kind × String} {words : List (Kind × String)} {rest : List Char}
    {p : Location} (hw : w.1.Spells w.2.toList) (hends : ∀ c ∈ rest.head?, w.1.endsBefore c)
    (h : Reads (Lexed.place (p.after w.2.toList) (chunks rest)) words) :
    Reads (Lexed.place p (chunks (w.2.toList ++ rest))) (w :: words) := by
  obtain ⟨k, text⟩ := w
  rw [chunks_word hw hends, Lexed.place, hw.errors_eq]
  constructor
  · simp [Chunk.token?, Token.word, ← h.words]
  · simp [Chunk.token?, h.errors]

theorem reads_spread {words : List (Kind × String)} {gaps : List String}
    (hcount : gaps.length = words.length - 1) (hwords : ∀ w ∈ words, w.1.Spells w.2.toList)
    (hgaps : ∀ gap ∈ gaps, Gap gap.toList) (p : Location) :
    Reads (Lexed.place p (chunks (spread (words.map Prod.snd) gaps).toList)) words := by
  induction words generalizing gaps p with
  | nil => exact ⟨rfl, rfl⟩
  | cons w words ih =>
    have hw := hwords w List.mem_cons_self
    have hlater : ∀ v ∈ words, v.1.Spells v.2.toList :=
      fun v hv => hwords v (List.mem_cons_of_mem w hv)
    rcases words with _ | ⟨v, words⟩
    · obtain rfl : gaps = [] := List.length_eq_zero_iff.mp hcount
      rw [List.map_singleton, spread_singleton, ← List.append_nil w.2.toList]
      exact .place_word hw (by simp) ⟨rfl, rfl⟩
    · rcases gaps with _ | ⟨gap, gaps⟩
      · simp at hcount
      have hgap := hgaps gap List.mem_cons_self
      rw [List.map_cons, spread_cons, String.toList_append, String.toList_append,
        List.append_assoc]
      refine .place_word hw (fun c hc => ?_) ?_
      · obtain ⟨d, hd, hblank⟩ := hgap.starts
        rw [List.head?_append, Option.mem_def.mp hd] at hc
        rw [← Option.some.inj hc]
        exact w.1.endsBefore_of_isBlank (isBlank_of_mem hblank)
      · rw [hgap.filler.place]
        exact ih (by simpa using hcount) hlater
          (fun g hg => hgaps g (List.mem_cons_of_mem gap hg)) _

theorem lexeme_of_mem_tokens {source : String} {t : Token} (ht : t ∈ (tokenize source).tokens) :
    t.kind.Lexeme t.lexeme.toList := by
  obtain ⟨i, next, -, hspells, -⟩ := exists_drop_of_mem_tokens ht
  exact (t.kind.lexeme_iff_spells _).2 hspells

/-- Every token of a source is a word, and words with gaps between them are read back as they are.
The errors of such a text are the points after the first one of each number. -/
theorem tokenize_spread :
    (∀ source, ∀ t ∈ (tokenize source).tokens, t.kind.Lexeme t.lexeme.toList) ∧
    ∀ (words : List (Kind × String)) (gaps : List String), gaps.length = words.length - 1 →
      (∀ w ∈ words, w.1.Lexeme w.2.toList) → (∀ gap ∈ gaps, Gap gap.toList) →
      (tokenize (spread (words.map Prod.snd) gaps)).tokens.map Token.word = words ∧
      (tokenize (spread (words.map Prod.snd) gaps)).diagnostics =
        (tokenize (spread (words.map Prod.snd) gaps)).tokens.flatMap fun t =>
          t.extraPoints.map fun i =>
            ⟨.lexer, ⟨t.start.line, t.start.column + i⟩, Fault.extraPoint.message⟩ := by
  refine ⟨fun source t ht => lexeme_of_mem_tokens ht, fun words gaps hcount hwords hgaps => ?_⟩
  have hspells : ∀ w ∈ words, w.1.Spells w.2.toList :=
    fun w hw => (w.1.lexeme_iff_spells _).1 (hwords w hw)
  have h := reads_spread hcount hspells hgaps Location.origin
  refine ⟨h.words, ?_⟩
  rw [Lexed.diagnostics, tokenize, h.errors, List.map_flatMap]
  simp only [Token.errors, List.map_map]
  rfl

/-- A comment with a quote in it, a tab and a line break of two characters stand between the words,
and the second point of the number is the only error. -/
theorem tokenize_spread_points :
    (tokenize (spread ["1.2.3", "/", "=", "\"//\""] [" // \"!=\n", "\t", "\r\n"])).tokens.map
      Token.word =
      [(.floatLiteral, "1.2.3"), (.slash, "/"), (.equals, "="), (.stringLiteral, "\"//\"")] ∧
    (tokenize (spread ["1.2.3", "/", "=", "\"//\""] [" // \"!=\n", "\t", "\r\n"])).diagnostics =
      [⟨.lexer, ⟨1, 4⟩, "Float literals must only contain one decimal point"⟩] := by
  have hwords : ∀ w ∈ [(Kind.floatLiteral, "1.2.3"), (.slash, "/"), (.equals, "="),
      (.stringLiteral, "\"//\"")], w.1.Lexeme w.2.toList := by
    simp only [List.forall_mem_cons]
    refine ⟨⟨['1'], ['2', '.', '3'], rfl, by decide, by simp, by simp⟩, ⟨_, rfl, rfl⟩,
      ⟨_, rfl, rfl⟩, ⟨['/', '/'], rfl, by decide, by decide⟩, nofun⟩
  have hcomment : Filler " // \"!=\n".toList :=
    .blank (by decide) (@Filler.comment [' ', '"', '!', '='] [] (by decide) .nil)
  have hgaps : ∀ gap ∈ [" // \"!=\n", "\t", "\r\n"], Gap gap.toList := by
    simp only [List.forall_mem_cons]
    exact ⟨⟨⟨' ', rfl, by decide⟩, hcomment⟩, ⟨⟨'\t', rfl, by decide⟩, .blank (by decide) .nil⟩,
      ⟨⟨'\r', rfl, by decide⟩, .blank (by decide) (.blank (by decide) .nil)⟩, nofun⟩
  obtain ⟨htokens, hdiagnostics⟩ := tokenize_spread.2 _ _ rfl hwords hgaps
  exact ⟨htokens, hdiagnostics.trans (by decide +kernel)⟩

end BraceLang
