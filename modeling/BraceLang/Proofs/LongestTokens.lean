import BraceLang.Proofs.Words
import BraceLang.Proofs.Pointing

/-!
# Tokens are as long as they can be

Where a chunk starts, no text of any kind of token is longer than the token that is read there. If
there is such a text at all, a token is read, unless two slashes start a comment.

A text of a token goes on, with what follows it, to one that ends before the next character
(`GoesOn`), and that one is read (`Chunk.extent_of_spells`). So it is at least as long as each text
that it can be reached from, that is, as all of them.
-/

namespace BraceLang

def reservedWords : List String :=
  ["return", "if", "else", "while", "for"]

/-- The texts of a kind of token, without reference to how they are read. -/
def Kind.Lexeme : Kind → List Char → Prop
  | .intLiteral, text => text ≠ [] ∧ ∀ c ∈ text, c.isDigit
  | .floatLiteral, text => ∃ whole tail, text = whole ++ '.' :: tail ∧ whole ≠ [] ∧
      (∀ c ∈ whole, c.isDigit) ∧ ∀ c ∈ tail, c.isDigit ∨ c = '.'
  | .stringLiteral, text => ∃ body, text = '"' :: (body ++ ['"']) ∧ '"' ∉ body ∧ '\n' ∉ body
  | .identifier, text => ∃ c tail, text = c :: tail ∧ (c.isAlpha ∨ c = '_') ∧
      (∀ d ∈ tail, d.isAlphanum ∨ d = '_') ∧ String.ofList text ∉ reservedWords
  | kind, text => ∃ s, kind.spelling? = some s ∧ text = s.toList

theorem ofWord_eq_identifier_iff (text : List Char) :
    Kind.ofWord text = .identifier ↔ String.ofList text ∉ reservedWords := by
  have hword (s : String) : String.ofList text = s ↔ text = s.toList :=
    ⟨fun h => by rw [← h, String.toList_ofList], fun h => by rw [h, String.ofList_toList]⟩
  simp only [reservedWords, List.mem_cons, List.not_mem_nil, or_false, hword, not_or]
  unfold Kind.ofWord
  split_ifs <;> simp_all

theorem forall_staysInString_iff (body : List Char) :
    (∀ c ∈ body, staysInString c) ↔ '"' ∉ body ∧ '\n' ∉ body := by
  simp only [staysInString, Bool.and_eq_true, decide_eq_true_eq]
  constructor
  · intro h
    exact ⟨fun hmem => (h _ hmem).1 rfl, fun hmem => (h _ hmem).2 rfl⟩
  · rintro ⟨hquote, hline⟩ c hc
    exact ⟨ne_of_mem_of_not_mem hc hquote, ne_of_mem_of_not_mem hc hline⟩

theorem Kind.lexeme_iff_spells (k : Kind) (text : List Char) : k.Lexeme text ↔ k.Spells text := by
  cases k
  case floatLiteral => simp [Lexeme, Spells, isDigitOrPoint]
  case stringLiteral => simp only [Lexeme, Spells, forall_staysInString_iff]
  case identifier =>
    simp only [Lexeme, Spells, isWordStart, isWordPart, Bool.or_eq_true, decide_eq_true_eq,
      ofWord_eq_identifier_iff]
  all_goals exact Iff.rfl

/-- At the head of what is left, the text is one of the kind and none of any kind is longer. No
comment starts there. -/
structure Kind.Longest (k : Kind) (text left : List Char) : Prop where
  atHead : text <+: left
  lexeme : k.Lexeme text
  longest : ∀ k' text', text' <+: left → Kind.Lexeme k' text' → text'.length ≤ text.length
  noComment : ¬ ['/', '/'] <+: left

def GoesOn (text next : List Char) : Prop :=
  ∃ k more rest, next = more ++ rest ∧ Kind.Spells k (text ++ more) ∧
    ∀ c ∈ rest.head?, k.endsBefore c

namespace GoesOn

variable {text next : List Char}

theorem of_ends {k : Kind} (h : k.Spells text) (hends : ∀ c ∈ next.head?, k.endsBefore c) :
    GoesOn text next :=
  ⟨k, [], next, rfl, by rwa [List.append_nil], hends⟩

/-- The text goes on through a class of characters. -/
theorem of_class {k : Kind} (p : Char → Bool) (h : k.Spells (text ++ next.takeWhile p))
    (hends : ∀ c, k.endsBefore c = !p c) : GoesOn text next := by
  refine ⟨k, _, next.dropWhile p, (List.takeWhile_append_dropWhile ..).symm, h, fun c hc => ?_⟩
  have hstop := List.head?_dropWhile_not p next
  rw [Option.mem_def.mp hc] at hstop
  simpa [hends] using hstop

theorem of_word {c : Char} {tail : List Char} (hc : isWordStart c)
    (htail : ∀ d ∈ tail, isWordPart d) : GoesOn (c :: tail) next := by
  refine of_class isWordPart (Kind.ofWord_spells hc fun d hd => ?_) fun d => ?_
  · exact (List.mem_append.mp hd).elim (htail d) Chunk.of_mem_takeWhile
  · unfold Kind.ofWord
    split_ifs <;> rfl

/-- Digits and points are digits alone, or digits up to a first point. -/
theorem digits_or_point (h : ∀ c ∈ text, isDigitOrPoint c) : (∀ c ∈ text, c.isDigit) ∨
    ∃ whole tail, text = whole ++ '.' :: tail ∧ (∀ c ∈ whole, c.isDigit) ∧
      ∀ c ∈ tail, isDigitOrPoint c := by
  induction text with
  | nil => exact .inl (by simp)
  | cons c text ih =>
    obtain ⟨hc, htext⟩ := List.forall_mem_cons.mp h
    by_cases hpoint : c = '.'
    · exact .inr ⟨[], text, by rw [hpoint]; rfl, by simp, htext⟩
    · have hdigit : c.isDigit := by simpa [isDigitOrPoint, hpoint] using hc
      rcases ih htext with hall | ⟨whole, tail, rfl, hwhole, htail⟩
      · exact .inl (List.forall_mem_cons.mpr ⟨hdigit, hall⟩)
      · exact .inr ⟨c :: whole, tail, rfl, List.forall_mem_cons.mpr ⟨hdigit, hwhole⟩, htail⟩

/-- Digits go on to an integer, or to a float if a point follows them. -/
theorem of_digits (hne : text ≠ []) (h : ∀ c ∈ text, c.isDigit) : GoesOn text next := by
  have hmore : ∀ c ∈ next.takeWhile isDigitOrPoint, isDigitOrPoint c :=
    fun c hc => Chunk.of_mem_takeWhile hc
  rcases digits_or_point hmore with hall | ⟨whole, tail, htake, hwhole, htail⟩
  · refine of_class (k := .intLiteral) isDigitOrPoint ⟨by simp [hne], fun c hc => ?_⟩ fun _ => rfl
    exact (List.mem_append.mp hc).elim (h c) (hall c)
  · refine of_class (k := .floatLiteral) isDigitOrPoint ⟨text ++ whole, tail, ?_, by simp [hne],
      fun c hc => ?_, htail⟩ fun _ => rfl
    · rw [htake, List.append_assoc]
    · exact (List.mem_append.mp hc).elim (h c) (hwhole c)

theorem of_point {whole tail : List Char} (hne : whole ≠ []) (hwhole : ∀ c ∈ whole, c.isDigit)
    (htail : ∀ c ∈ tail, isDigitOrPoint c) : GoesOn (whole ++ '.' :: tail) next := by
  refine of_class (k := .floatLiteral) isDigitOrPoint
    ⟨whole, tail ++ next.takeWhile isDigitOrPoint, by simp, hne, hwhole, fun c hc => ?_⟩
    fun _ => rfl
  exact (List.mem_append.mp hc).elim (htail c) Chunk.of_mem_takeWhile

/-- A mark of one character goes on with an equals sign. -/
theorem of_mark {c : Char} {k k' : Kind} (h : k.Spells [c]) (h' : k'.Spells [c, '='])
    (hends : ∀ d, k.endsBefore d = decide (d ≠ '=')) (hends' : ∀ d, k'.endsBefore d) :
    GoesOn [c] next := by
  by_cases hnext : next.head? = some '='
  · obtain ⟨rest, rfl⟩ := List.head?_eq_some_iff.mp hnext
    exact ⟨k', ['='], rest, rfl, h', fun d _ => hends' d⟩
  · refine of_ends h fun d hd => ?_
    rw [hends, decide_eq_true_eq]
    rintro rfl
    exact hnext hd

end GoesOn

/-- The text of a token goes on to one that ends before the next character, unless it is the first
slash of a comment. -/
theorem Kind.Spells.goesOn {k : Kind} {text next : List Char} (h : k.Spells text)
    (hcomment : ¬ ['/', '/'] <+: text ++ next) : GoesOn text next := by
  cases k
  case intLiteral => exact .of_digits h.1 h.2
  case floatLiteral =>
    obtain ⟨whole, tail, rfl, hne, hwhole, htail⟩ := h
    exact .of_point hne hwhole htail
  case identifier =>
    obtain ⟨c, tail, rfl, hc, htail, -⟩ := h
    exact .of_word hc htail
  case reservedReturn | reservedIf | reservedElse | reservedWhile | reservedFor =>
    obtain ⟨s, hs, rfl⟩ := h
    cases hs
    exact .of_word (by decide) (List.all_eq_true.mp (by decide))
  case equals | lessThan | greaterThan =>
    obtain ⟨s, hs, rfl⟩ := h
    cases hs
    exact .of_mark (Chunk.spells_of_ofMark? rfl) (Chunk.spells_of_ofMarkEquals? rfl) (fun _ => rfl)
      fun _ => rfl
  case slash =>
    obtain ⟨s, hs, rfl⟩ := h
    cases hs
    refine .of_ends (k := .slash) ⟨_, rfl, rfl⟩ fun c hc => decide_eq_true ?_
    obtain ⟨rest, rfl⟩ := List.head?_eq_some_iff.mp hc
    rintro rfl
    exact hcomment ⟨rest, rfl⟩
  all_goals exact .of_ends h fun _ _ => rfl

namespace Chunk

variable {c : Char} {rest : List Char}

/-- Where a text of a token starts, and no comment, a token is read that is not shorter. -/
theorem extent_of_head {k : Kind} {text : List Char} (hk : k.Spells text)
    (hhead : text <+: c :: rest) (hcomment : ¬ ['/', '/'] <+: c :: rest) :
    (∃ k', (extent c rest).1 = .token k') ∧ text.length ≤ (extent c rest).2 + 1 := by
  obtain ⟨next, hnext⟩ := hhead
  have hstart : ¬ ['/', '/'] <+: text ++ next := hnext ▸ hcomment
  obtain ⟨k', more, after, rfl, hk', hends⟩ := hk.goesOn hstart
  rcases text with _ | ⟨d, body⟩
  · exact absurd rfl hk.ne_nil
  rw [← List.append_assoc] at hnext
  obtain ⟨rfl, rfl⟩ := List.cons.inj hnext
  have hextent : extent d (body ++ more ++ after) = (.token k', (body ++ more).length) :=
    extent_of_spells hk' hends
  simp only [List.append_eq, hextent]
  exact ⟨⟨k', rfl⟩, by simp⟩

theorem no_comment_of_extent {k : Kind} (h : (extent c rest).1 = .token k) :
    ¬ ['/', '/'] <+: c :: rest := by
  rintro ⟨next, hnext⟩
  obtain ⟨rfl, rfl⟩ := List.cons.inj hnext
  cases h

theorem stretch_shape (source : List Char) (i : Nat) (k : Chunk) :
    (k.stretch source i).content.shape = k.shape := by
  rcases k with ⟨shape, text⟩
  cases shape <;> rfl

end Chunk

def scanStarts (source : List Char) : List Nat :=
  (stretches source 0 (chunks source)).map Stretch.start

/-- A stretch is the first chunk of what is left at its start. -/
theorem extent_of_mem_stretches {source left : List Char} {i : Nat} (h : source.drop i = left)
    {p : Stretch} (hp : p ∈ stretches source i (chunks left)) :
    ∃ c rest, source.drop p.start = c :: rest ∧ p.content.shape = (Chunk.extent c rest).1 ∧
      p.stop = p.start + ((Chunk.extent c rest).2 + 1) := by
  induction left using Chunk.chunks_induction generalizing i with
  | nil => cases hp
  | cons c rest body next hcut ih =>
    rw [Chunk.chunks_of_cut hcut] at hp
    rcases List.mem_cons.mp hp with rfl | hp
    · exact ⟨c, rest, h, Chunk.stretch_shape .., by rw [hcut.length]; rfl⟩
    · have hdrop : source.drop (i + (c :: body).length) = next := by
        rw [← List.drop_drop, h, hcut.split, ← List.cons_append, List.drop_left]
      exact ih hdrop hp

/-- Every token is the longest that can be read where it starts, and where a chunk starts with the
text of a token, and not with a comment, there is a token. -/
theorem tokenize_longest (source : String) :
    (∀ t ∈ (tokenize source).tokens, ∃ i ∈ scanStarts source.toList,
      t.start = placeAt source.toList i ∧
      t.kind.Longest t.lexeme.toList (source.toList.drop i)) ∧
    ∀ i ∈ scanStarts source.toList,
      (∃ k text, text <+: source.toList.drop i ∧ Kind.Lexeme k text) →
      ¬ ['/', '/'] <+: source.toList.drop i →
      ∃ t ∈ (tokenize source).tokens, t.start = placeAt source.toList i := by
  have hdescribes := describes_source source
  constructor
  · intro t ht
    obtain ⟨p, hp, hcontent⟩ := mem_tokens_iff.1 ht
    obtain ⟨c, rest, hdrop, hshape, hstop⟩ := extent_of_mem_stretches List.drop_zero hp
    have hfits := hdescribes.fits p hp
    obtain ⟨hlexeme, hstart, -⟩ := hfits.token t hcontent
    have hspells := hfits.shape
    rw [hcontent] at hshape hspells
    rw [← hlexeme] at hspells
    have hcomment := Chunk.no_comment_of_extent hshape.symm
    rw [← hdrop] at hcomment
    refine ⟨p.start, List.mem_map_of_mem hp, hstart, ?_, (Kind.lexeme_iff_spells ..).2 hspells,
      fun k text hhead hk => ?_, hcomment⟩
    · rw [hlexeme, Stretch.drop_start hfits]
      exact ⟨_, rfl⟩
    · rw [hdrop] at hhead hcomment
      have hlength := (Chunk.extent_of_head ((k.lexeme_iff_spells text).1 hk) hhead hcomment).2
      rw [hlexeme, Stretch.length_text hfits]
      omega
  · intro i hi htext hcomment
    obtain ⟨p, hp, rfl⟩ := List.mem_map.mp hi
    obtain ⟨c, rest, hdrop, hshape, -⟩ := extent_of_mem_stretches List.drop_zero hp
    obtain ⟨k, text, hhead, hk⟩ := htext
    rw [hdrop] at hhead hcomment
    obtain ⟨⟨k', hk'⟩, -⟩ := Chunk.extent_of_head ((k.lexeme_iff_spells text).1 hk) hhead hcomment
    rw [hk'] at hshape
    cases hcontent : p.content with
    | token t =>
      obtain ⟨-, hstart, -⟩ := (hdescribes.fits p hp).token t hcontent
      exact ⟨t, mem_tokens_iff.2 ⟨p, hp, hcontent⟩, hstart⟩
    | blank | comment | fault =>
      rw [hcontent] at hshape
      cases hshape

/-- All of a number with two points is one token, and so are the two equals signs behind it. -/
theorem tokenize_longest_points :
    Kind.floatLiteral.Longest "1.2.3".toList "1.2.3==if".toList ∧
    ∃ t ∈ (tokenize "1.2.3==if").tokens, t.start = placeAt "1.2.3==if".toList 5 := by
  obtain ⟨hlongest, hstarts⟩ := tokenize_longest "1.2.3==if"
  have hscans : scanStarts "1.2.3==if".toList = [0, 5, 7] := by decide +kernel
  rw [hscans] at hlongest hstarts
  constructor
  · have hmem : ⟨.floatLiteral, ⟨1, 1⟩, ⟨1, 6⟩, "1.2.3"⟩ ∈ (tokenize "1.2.3==if").tokens := by
      decide +kernel
    obtain ⟨i, hi, hplace, h⟩ := hlongest _ hmem
    simp only [List.mem_cons, List.not_mem_nil, or_false] at hi
    rcases hi with rfl | rfl | rfl
    · exact h
    · exact absurd hplace (by decide)
    · exact absurd hplace (by decide)
  · have hhead : ['=', '='] <+: "1.2.3==if".toList.drop 5 := ⟨['i', 'f'], by decide⟩
    exact hstarts 5 (by decide) ⟨.equalsEquals, _, hhead, "==", rfl, by decide⟩ (by decide)

end BraceLang
