import BraceLang.Proofs.CommandResults

/-!
# Listings of tokens

A token is listed in one line, and nothing in it is escaped. The line can be read back all the same:
each part of it but the last ends where a character first appears that the part cannot have, and the
last part is what stands between the quotes, more quotes or not.
-/

namespace BraceLang

/-- A text is split in one way only at the first place where a character appears. -/
theorem eq_and_eq_of_append_cons {c : Char} {s t x y : List Char} (hs : c ∉ s) (ht : c ∉ t)
    (h : s ++ c :: x = t ++ c :: y) : s = t ∧ x = y := by
  induction s generalizing t with
  | nil =>
    cases t with
    | nil => exact ⟨rfl, (List.cons.inj h).2⟩
    | cons d t => exact absurd (List.mem_cons.mpr (.inl (List.cons.inj h).1)) ht
  | cons d s ih =>
    cases t with
    | nil => exact absurd (List.mem_cons.mpr (.inl (List.cons.inj h).1.symm)) hs
    | cons e t =>
      obtain ⟨rfl, hrest⟩ := List.cons.inj h
      rw [List.mem_cons, not_or] at hs ht
      obtain ⟨rfl, hxy⟩ := ih hs.2 ht.2 hrest
      exact ⟨rfl, hxy⟩

theorem eq_of_toList_toString_eq {m n : Nat} (h : (toString m).toList = (toString n).toList) :
    m = n := by
  have hread (k : Nat) : Nat.ofDigitChars 10 (toString k).toList 0 = k := by
    rw [Nat.toString_eq_repr, Nat.toList_repr]
    exact Nat.ofDigitChars_toDigits (by decide) (by decide)
  rw [← hread m, h, hread n]

/-- Past a number and a character that is not a digit. -/
theorem eq_and_eq_of_toString_append_cons {m n : Nat} {c : Char} {x y : List Char}
    (hc : ¬ c.isDigit) (h : (toString m).toList ++ c :: x = (toString n).toList ++ c :: y) :
    m = n ∧ x = y := by
  have hnot (k : Nat) : c ∉ (toString k).toList :=
    fun hmem => hc (Location.isDigit_of_mem_toString hmem)
  obtain ⟨hdigits, hrest⟩ := eq_and_eq_of_append_cons (hnot m) (hnot n) h
  exact ⟨eq_of_toList_toString_eq hdigits, hrest⟩

/-- Past a place and a character that is not a digit. -/
theorem Location.eq_and_eq_of_text_append_cons {p q : Location} {c : Char} {x y : List Char}
    (hc : ¬ c.isDigit) (h : p.text.toList ++ c :: x = q.text.toList ++ c :: y) :
    p = q ∧ x = y := by
  have htext (p : Location) :
      p.text.toList = (toString p.line).toList ++ ':' :: (toString p.column).toList := by
    have hparts : p.text = toString p.line ++ ":" ++ toString p.column := rfl
    rw [hparts, String.toList_append, String.toList_append, List.append_assoc]
    rfl
  rw [htext, htext, List.append_assoc, List.append_assoc] at h
  obtain ⟨hline, hcolumns⟩ := eq_and_eq_of_toString_append_cons (by decide) h
  obtain ⟨hcolumn, hrest⟩ := eq_and_eq_of_toString_append_cons hc hcolumns
  refine ⟨?_, hrest⟩
  rw [Location.mk.injEq]
  exact ⟨hline, hcolumn⟩

theorem Kind.ofLabel?_label (k : Kind) : ofLabel? k.label = some k := by
  cases k <;> decide

/-- Past the name of a kind and a space. -/
theorem Kind.eq_and_eq_of_label_append_cons {k k' : Kind} {x y : List Char}
    (h : k.label.toList ++ ' ' :: x = k'.label.toList ++ ' ' :: y) : k = k' ∧ x = y := by
  have hnot (k : Kind) : ' ' ∉ k.label.toList := by
    cases k <;> decide
  obtain ⟨hlabel, hrest⟩ := eq_and_eq_of_append_cons (hnot k) (hnot k') h
  have hkind := k.ofLabel?_label.symm.trans (String.toList_injective hlabel ▸ k'.ofLabel?_label)
  exact ⟨Option.some.inj hkind, hrest⟩

/-- Every token can be read back from its line. -/
theorem Token.listing_injective : Function.Injective Token.listing := by
  have htext (t : Token) : t.listing.toList =
      t.start.text.toList ++ '-' :: (t.stop.text.toList ++ ' ' ::
        (t.kind.label.toList ++ ' ' :: '\'' :: (t.lexeme.toList ++ ['\'']))) := by
    have hparts : t.listing = t.start.text ++ "-" ++ t.stop.text ++ " " ++
        (t.kind.label ++ " '" ++ t.lexeme ++ "'") := rfl
    simp only [hparts, String.toList_append, List.append_assoc]
    rfl
  intro t t' h
  have hlist := congrArg String.toList h
  rw [htext, htext] at hlist
  obtain ⟨hstart, hlist⟩ := Location.eq_and_eq_of_text_append_cons (by decide) hlist
  obtain ⟨hstop, hlist⟩ := Location.eq_and_eq_of_text_append_cons (by decide) hlist
  obtain ⟨hkind, hlist⟩ := Kind.eq_and_eq_of_label_append_cons hlist
  -- the lexeme may have quotes, but what stands behind it is always the one last quote
  have hlexeme := List.append_cancel_right (List.cons.inj hlist).2
  rw [Token.mk.injEq]
  exact ⟨hkind, hstart, hstop, String.toList_injective hlexeme⟩

namespace Command

/-- A text that is made of lines has these lines. -/
theorem splitOn_join_lines {lines : List String} (h : ∀ line ∈ lines, OneLine line) :
    (String.join (lines.map (· ++ "\n"))).toList.splitOn '\n' =
      lines.map String.toList ++ [[]] := by
  induction lines with
  | nil => rfl
  | cons line lines ih =>
    obtain ⟨hline, hlines⟩ := List.forall_mem_cons.mp h
    have hfront : (String.join ((line :: lines).map (· ++ "\n"))).toList =
        line.toList ++ '\n' :: (String.join (lines.map (· ++ "\n"))).toList := by
      rw [List.map_cons, String.join_cons, String.toList_append, String.toList_append,
        List.append_assoc]
      rfl
    rw [hfront, List.splitOn_append_cons_self_of_not_mem hline, ih hlines]
    rfl

theorem splitOn_output_tokens (source : String) :
    (Plan.tokens source).output.toList.splitOn '\n' =
      (tokenize source).tokens.map (fun t => t.listing.toList) ++ [[]] := by
  have houtput : (Plan.tokens source).output =
      String.join (((tokenize source).tokens.map Token.listing).map (· ++ "\n")) := by
    rw [List.map_map]
    rfl
  rw [houtput, splitOn_join_lines, List.map_map]
  · rfl
  · intro line hline
    obtain ⟨t, ht, rfl⟩ := List.mem_map.mp hline
    exact oneLine_listing ht

/-- The listing of a text has a line for each of its tokens, and it tells what they are. -/
theorem output_tokens_unambiguous :
    (∀ source, (Plan.tokens source).output.toList.splitOn '\n' =
      (tokenize source).tokens.map (fun t => t.listing.toList) ++ [[]]) ∧
    ∀ source source', (Plan.tokens source).output = (Plan.tokens source').output →
      (tokenize source).tokens = (tokenize source').tokens := by
  refine ⟨splitOn_output_tokens, fun source source' h => ?_⟩
  have hlines := congrArg (·.toList.splitOn '\n') h
  simp only [splitOn_output_tokens] at hlines
  have hlistings := List.append_cancel_right hlines
  refine (List.map_inj_right fun t t' ht => ?_).mp hlistings
  exact Token.listing_injective (String.toList_injective ht)

/-- A lexeme that reads like two entries of a listing, before a comment and without one. -/
theorem output_tokens_unambiguous_quotes :
    let source := "\"' 1:3-1:4 COMMA ','\" // more"
    let source' := "\"' 1:3-1:4 COMMA ','\""
    (Plan.tokens source).output = (Plan.tokens source').output ∧
    (tokenize source).tokens = (tokenize source').tokens ∧ source ≠ source' ∧
    (Plan.tokens source).output.toList.splitOn '\n' =
      ["1:1-1:22 STRING_LITERAL '\"' 1:3-1:4 COMMA ','\"'".toList, []] := by
  intro source source'
  have houtput : (Plan.tokens source).output = (Plan.tokens source').output := by decide +kernel
  refine ⟨houtput, output_tokens_unambiguous.2 _ _ houtput, by decide, ?_⟩
  rw [output_tokens_unambiguous.1]
  decide +kernel

end Command

end BraceLang
