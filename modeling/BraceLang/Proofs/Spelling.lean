import Mathlib.Data.Bool.AllAny
import Mathlib.Tactic.SplitIfs
import BraceLang.Lexed

/-!
# The chunks of a text, one by one

What each shape of a chunk says about its characters and about the character behind it
(`Shape.Fits`), and an induction over the chunks of a text.
-/

namespace BraceLang

def Kind.Spells : Kind → List Char → Prop
  | .intLiteral, text => text ≠ [] ∧ ∀ c ∈ text, c.isDigit
  | .floatLiteral, text => ∃ whole tail, text = whole ++ '.' :: tail ∧ whole ≠ [] ∧
      (∀ c ∈ whole, c.isDigit) ∧ ∀ c ∈ tail, isDigitOrPoint c
  | .stringLiteral, text => ∃ body, text = '"' :: (body ++ ['"']) ∧ ∀ c ∈ body, staysInString c
  | .identifier, text => ∃ c tail, text = c :: tail ∧ isWordStart c ∧ (∀ c ∈ tail, isWordPart c) ∧
      Kind.ofWord text = .identifier
  | kind, text => ∃ s, kind.spelling? = some s ∧ text = s.toList

theorem Kind.spells_of_spelling? {k : Kind} {s : String} (h : k.spelling? = some s) :
    k.Spells s.toList := by
  cases k <;> first | exact ⟨s, h, rfl⟩ | cases h

theorem Kind.ofWord_spells {c : Char} {tail : List Char} (hc : isWordStart c)
    (ht : ∀ c ∈ tail, isWordPart c) : (Kind.ofWord (c :: tail)).Spells (c :: tail) := by
  have hsplit : Kind.ofWord (c :: tail) = .identifier ∨
      ∃ s, (Kind.ofWord (c :: tail)).spelling? = some s ∧ c :: tail = s.toList := by
    unfold Kind.ofWord
    split_ifs with h₁ h₂ h₃ h₄ h₅
    · exact .inr ⟨_, rfl, h₁⟩
    · exact .inr ⟨_, rfl, h₂⟩
    · exact .inr ⟨_, rfl, h₃⟩
    · exact .inr ⟨_, rfl, h₄⟩
    · exact .inr ⟨_, rfl, h₅⟩
    · exact .inl rfl
  rcases hsplit with h | ⟨s, hs, h⟩
  · rw [h]
    exact ⟨c, tail, rfl, hc, ht, h⟩
  · rw [h] at hs ⊢
    exact spells_of_spelling? hs

def Accepted (c : Char) : Prop :=
  c ∈ [' ', '\t', '\r', '\n', ',', ';', '(', ')', '{', '}', '[', ']', '=', '<', '>', '!', '/', '+',
    '-', '*', '^', '%', '"', '_'] ∨ c.isDigit ∨ c.isAlpha

def EndsLine (next : List Char) : Prop :=
  ∀ c ∈ next.head?, c = '\n'

/-- A chunk of the shape may have the text, in front of the characters `next`. -/
def Shape.Fits : Shape → List Char → List Char → Prop
  | .blank, text, _ => ∃ c, text = [c] ∧ c ∈ [' ', '\t', '\r', '\n']
  | .comment, text, next => (∃ body, text = '/' :: '/' :: body) ∧ '\n' ∉ text ∧ EndsLine next
  | .token kind, text, _ => kind.Spells text
  | .fault .strayBang, text, next => text = ['!'] ∧ next.head? ≠ some '='
  | .fault (.invalidCharacter c), text, _ => text = [c] ∧ ¬ Accepted c
  | .fault .unterminatedString, text, next =>
      (∃ body, text = '"' :: body ∧ '"' ∉ body ∧ '\n' ∉ body) ∧ EndsLine next
  | .fault .extraPoint, _, _ => False

theorem endsLine_dropWhile {p : Char → Bool} (h : ∀ c, p c = false → c = '\n' ∨ c = '"')
    {rest : List Char} (hq : (rest.dropWhile p).head? ≠ some '"') :
    EndsLine (rest.dropWhile p) := by
  intro c hc
  have hp := List.head?_dropWhile_not p rest
  rw [Option.mem_def] at hc
  simp only [hc] at hp
  refine (h c hp).resolve_right ?_
  rintro rfl
  exact hq hc

namespace Chunk

structure Cut (c : Char) (rest : List Char) (e : Shape × Nat) (body next : List Char) : Prop where
  split : rest = body ++ next
  length : e.2 = body.length
  fits : e.1.Fits (c :: body) next

theorem drop_takeWhile (p : Char → Bool) (rest : List Char) :
    rest.drop (rest.takeWhile p).length = rest.dropWhile p :=
  calc rest.drop (rest.takeWhile p).length
      = (rest.takeWhile p ++ rest.dropWhile p).drop (rest.takeWhile p).length := by
        rw [List.takeWhile_append_dropWhile]
    _ = rest.dropWhile p := List.drop_left

theorem of_mem_takeWhile {p : Char → Bool} {c : Char} {rest : List Char}
    (h : c ∈ rest.takeWhile p) : p c := by
  have hall : (rest.takeWhile p).all p = true := List.all_takeWhile
  exact List.all_eq_true.mp hall c h

theorem cut_number {c : Char} (hc : c.isDigit) (rest : List Char) :
    ∃ body next, Cut c rest (.token (number rest).1, (number rest).2) body next := by
  have hwhole : ∀ d ∈ c :: rest.takeWhile Char.isDigit, d.isDigit := by
    intro d hd
    rcases List.mem_cons.mp hd with rfl | hd
    · exact hc
    · exact of_mem_takeWhile hd
  have hsplit := (List.takeWhile_append_dropWhile (p := Char.isDigit) (l := rest)).symm
  simp only [number, drop_takeWhile]
  by_cases hpoint : (rest.dropWhile Char.isDigit).head? = some '.'
  · simp only [hpoint, if_true]
    refine ⟨rest.takeWhile isDigitOrPoint, rest.dropWhile isDigitOrPoint,
      (List.takeWhile_append_dropWhile ..).symm, rfl, ?_⟩
    obtain ⟨more, hmore⟩ : ∃ more, rest.dropWhile Char.isDigit = '.' :: more := by
      rcases hd : rest.dropWhile Char.isDigit with _ | ⟨d, more⟩
      · simp [hd] at hpoint
      · rw [hd] at hpoint
        exact ⟨more, by rw [Option.some.inj hpoint]⟩
    have htake : rest.takeWhile isDigitOrPoint =
        rest.takeWhile Char.isDigit ++ '.' :: more.takeWhile isDigitOrPoint := by
      conv => lhs; rw [hsplit, hmore]
      rw [List.takeWhile_append_of_pos fun d hd => by simp [isDigitOrPoint, of_mem_takeWhile hd],
        List.takeWhile_cons_of_pos (by decide)]
    exact ⟨c :: rest.takeWhile Char.isDigit, more.takeWhile isDigitOrPoint, by rw [htake]; rfl,
      List.cons_ne_nil _ _, hwhole, fun d hd => of_mem_takeWhile hd⟩
  · simp only [hpoint, if_false]
    exact ⟨_, _, hsplit, rfl, List.cons_ne_nil _ _, hwhole⟩

theorem cut_quoted (rest : List Char) :
    ∃ body next, Cut '"' rest (quoted rest) body next := by
  have hsplit := (List.takeWhile_append_dropWhile (p := staysInString) (l := rest)).symm
  simp only [quoted, drop_takeWhile]
  by_cases hquote : (rest.dropWhile staysInString).head? = some '"'
  · simp only [hquote, if_true]
    obtain ⟨more, hmore⟩ : ∃ more, rest.dropWhile staysInString = '"' :: more := by
      rcases hd : rest.dropWhile staysInString with _ | ⟨d, more⟩
      · simp [hd] at hquote
      · rw [hd] at hquote
        exact ⟨more, by rw [Option.some.inj hquote]⟩
    refine ⟨rest.takeWhile staysInString ++ ['"'], more, ?_, by simp, ?_⟩
    · conv => lhs; rw [hsplit, hmore]
      simp
    · exact ⟨_, rfl, fun d hd => of_mem_takeWhile hd⟩
  · simp only [hquote, if_false]
    refine ⟨_, _, hsplit, rfl, ⟨_, rfl, fun hd => ?_, fun hd => ?_⟩, endsLine_dropWhile ?_ hquote⟩
    · have := of_mem_takeWhile hd
      simp [staysInString] at this
    · have := of_mem_takeWhile hd
      simp [staysInString] at this
    · intro d hd
      simp only [staysInString, Bool.and_eq_false_iff, decide_eq_false_iff_not, ne_eq,
        Decidable.not_not] at hd
      exact hd.symm

theorem spells_of_ofMark? {c : Char} {k : Kind} (h : Kind.ofMark? c = some k) : k.Spells [c] := by
  unfold Kind.ofMark? at h
  split at h <;> cases h
  all_goals exact ⟨_, rfl, by decide⟩

theorem spells_of_ofMarkEquals? {c : Char} {k : Kind} (h : Kind.ofMarkEquals? c = some k) :
    k.Spells [c, '='] := by
  unfold Kind.ofMarkEquals? at h
  split at h <;> cases h
  all_goals exact ⟨_, rfl, by decide⟩

theorem not_accepted {c : Char} (hblank : ¬ isBlank c) (hdigit : ¬ c.isDigit)
    (hword : ¬ isWordStart c) (hquote : c ≠ '"') (hbang : c ≠ '!') (hmark : Kind.ofMark? c = none) :
    ¬ Accepted c := by
  have hlist : ∀ d ∈ [' ', '\t', '\r', '\n', ',', ';', '(', ')', '{', '}', '[', ']', '=', '<', '>',
      '!', '/', '+', '-', '*', '^', '%', '"', '_'],
      (isBlank d || isWordStart d || d = '"' || d = '!' || (Kind.ofMark? d).isSome) :=
    List.all_eq_true.mp (by decide)
  rintro (h | h | h)
  · have hc := hlist c h
    simp only [Bool.or_eq_true, decide_eq_true_eq] at hc
    rcases hc with (((h | h) | h) | h) | h
    · exact hblank h
    · exact hword h
    · exact hquote h
    · exact hbang h
    · rw [hmark] at h
      cases h
  · exact hdigit h
  · exact hword (by simp [isWordStart, h])

theorem cut_mark {c : Char} (rest : List Char) (hblank : ¬ isBlank c) (hdigit : ¬ c.isDigit)
    (hword : ¬ isWordStart c) (hquote : c ≠ '"') :
    ∃ body next, Cut c rest (mark c rest) body next := by
  unfold mark
  split
  · next k hk =>
    split_ifs at hk with hrest
    obtain ⟨more, rfl⟩ : ∃ more, rest = '=' :: more := by
      rcases rest with _ | ⟨d, more⟩
      · simp at hrest
      · exact ⟨more, by rw [Option.some.inj hrest]⟩
    exact ⟨['='], more, rfl, rfl, spells_of_ofMarkEquals? hk⟩
  · next hequals =>
    split
    · next k hk => exact ⟨[], rest, rfl, rfl, spells_of_ofMark? hk⟩
    · next hmark =>
      by_cases hbang : c = '!'
      · subst hbang
        rw [if_pos rfl]
        refine ⟨[], rest, rfl, rfl, rfl, fun hrest => ?_⟩
        rw [if_pos hrest] at hequals
        cases hequals
      · rw [if_neg hbang]
        exact ⟨[], rest, rfl, rfl, rfl, not_accepted hblank hdigit hword hquote hbang hmark⟩

theorem mem_of_isBlank {c : Char} (h : isBlank c) : c ∈ [' ', '\t', '\r', '\n'] := by
  simp only [isBlank, Bool.or_eq_true, decide_eq_true_eq] at h
  rcases h with ((rfl | rfl) | rfl) | rfl <;> decide

/-- The first chunk of a text is what its shape says. -/
theorem cut_extent (c : Char) (rest : List Char) :
    ∃ body next, Cut c rest (extent c rest) body next := by
  unfold extent
  by_cases hblank : isBlank c
  · rw [if_pos hblank]
    exact ⟨[], rest, rfl, rfl, c, rfl, mem_of_isBlank hblank⟩
  rw [if_neg hblank]
  by_cases hdigit : c.isDigit
  · rw [if_pos hdigit]
    exact cut_number hdigit rest
  rw [if_neg hdigit]
  by_cases hword : isWordStart c
  · rw [if_pos hword]
    exact ⟨_, _, (List.takeWhile_append_dropWhile ..).symm, rfl,
      Kind.ofWord_spells hword fun d hd => of_mem_takeWhile hd⟩
  rw [if_neg hword]
  by_cases hquote : c = '"'
  · subst hquote
    rw [if_pos rfl]
    exact cut_quoted rest
  rw [if_neg hquote]
  by_cases hcomment : c = '/' ∧ rest.head? = some '/'
  · rw [if_pos hcomment]
    obtain ⟨rfl, hrest⟩ := hcomment
    have hp : ∀ d, decide (d ≠ '\n') = false → d = '\n' ∨ d = '"' := by
      intro d hd
      simpa using Or.inl hd
    refine ⟨_, _, (List.takeWhile_append_dropWhile ..).symm, rfl, ?_, ?_, ?_⟩
    · rcases rest with _ | ⟨d, more⟩
      · simp at hrest
      · obtain rfl : d = '/' := Option.some.inj hrest
        exact ⟨more.takeWhile (· ≠ '\n'), by rw [List.takeWhile_cons_of_pos (by decide)]⟩
    · intro hmem
      rcases List.mem_cons.mp hmem with h | h
      · cases h
      · simpa using of_mem_takeWhile h
    · intro d hd
      have hstop := List.head?_dropWhile_not (fun d => decide (d ≠ '\n')) rest
      rw [Option.mem_def.mp hd] at hstop
      simpa using hstop
  · rw [if_neg hcomment]
    exact cut_mark rest hblank hdigit hword hquote

/-- Induction over the chunks of a text. -/
theorem chunks_induction {P : List Char → Prop} (nil : P [])
    (cons : ∀ c rest body next, Cut c rest (extent c rest) body next → P next → P (c :: rest))
    (source : List Char) : P source := by
  induction hn : source.length using Nat.strongRecOn generalizing source with
  | ind n ih =>
    rcases source with _ | ⟨c, rest⟩
    · exact nil
    · obtain ⟨body, next, h⟩ := cut_extent c rest
      refine cons c rest body next h (ih next.length ?_ next rfl)
      have hlen := congrArg List.length h.split
      simp only [List.length_append, List.length_cons] at hlen hn
      omega

theorem chunks_of_cut {c : Char} {rest body next : List Char}
    (h : Cut c rest (extent c rest) body next) :
    chunks (c :: rest) = ⟨(extent c rest).1, c :: body⟩ :: chunks next := by
  rw [chunks_cons, h.length, h.split, List.take_left, List.drop_left]

end Chunk

theorem Kind.not_isBlank_of_spelling? {k : Kind} {s : String} (h : k.spelling? = some s) :
    ∀ c ∈ s.toList, ¬ isBlank c := by
  apply List.any_eq_false.mp
  cases k <;> cases h <;> rfl

/-- Only a string has blanks in it. -/
theorem Kind.Spells.not_isBlank {k : Kind} {text : List Char} (h : k.Spells text)
    (hk : k ≠ .stringLiteral) {c : Char} (hc : c ∈ text) : ¬ isBlank c := by
  intro hblank
  have hclasses : ∀ d ∈ [' ', '\t', '\r', '\n'],
      ¬ isDigitOrPoint d ∧ ¬ isWordStart d ∧ ¬ isWordPart d := by
    rw [← List.all_iff_forall_prop]
    decide
  obtain ⟨hnumber, hstart, hpart⟩ := hclasses c (Chunk.mem_of_isBlank hblank)
  have hdigit : ¬ c.isDigit := fun hd => hnumber (by simp [isDigitOrPoint, hd])
  cases k
  case stringLiteral => exact hk rfl
  case intLiteral => exact hdigit (h.2 c hc)
  case floatLiteral =>
    obtain ⟨whole, tail, rfl, -, hwhole, htail⟩ := h
    rcases List.mem_append.mp hc with hc | hc
    · exact hdigit (hwhole c hc)
    · rcases List.mem_cons.mp hc with rfl | hc
      · exact hnumber rfl
      · exact hnumber (htail c hc)
  case identifier =>
    obtain ⟨d, tail, rfl, hd, htail, -⟩ := h
    rcases List.mem_cons.mp hc with rfl | hc
    · exact hstart hd
    · exact hpart (htail c hc)
  all_goals
    obtain ⟨s, hs, rfl⟩ := h
    exact Kind.not_isBlank_of_spelling? hs c hc hblank

end BraceLang
