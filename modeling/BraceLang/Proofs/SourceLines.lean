import BraceLang.Diagnostic.Display
import BraceLang.Proofs.Partition

/-!
# The lines of a source

Places count newlines, and lines are also cut at a carriage return before a newline. The two agree
for everything that is no line break: it is found on the line that its place says, behind as many
characters as its column says (`sourceLine_of_drop`). The induction is on the text before it.
-/

namespace BraceLang

def lastLine (text : List Char) : List Char :=
  (text.reverse.takeWhile (· ≠ '\n')).reverse

theorem takeWhile_reverse_of_notMem {text : List Char} (h : '\n' ∉ text) (more : List Char) :
    (text.reverse ++ more).takeWhile (· ≠ '\n') =
      text.reverse ++ more.takeWhile (· ≠ '\n') := by
  apply List.takeWhile_append_of_pos
  intro c hc
  exact decide_eq_true fun e => h (e ▸ List.mem_reverse.mp hc)

theorem lastLine_of_notMem {text : List Char} (h : '\n' ∉ text) : lastLine text = text := by
  rw [lastLine, ← List.append_nil text.reverse, takeWhile_reverse_of_notMem h]
  simp

theorem lastLine_cons_of_mem {text : List Char} (c : Char) (h : '\n' ∈ text) :
    lastLine (c :: text) = lastLine text := by
  have hne : (text.reverse.takeWhile (· ≠ '\n')).length ≠ text.reverse.length := by
    intro hlen
    have hself := (List.takeWhile_prefix (· ≠ '\n')).eq_of_length hlen
    have hmem : '\n' ∈ text.reverse.takeWhile (· ≠ '\n') := by rwa [hself, List.mem_reverse]
    simpa using Chunk.of_mem_takeWhile hmem
  rw [lastLine, List.reverse_cons, List.takeWhile_append, if_neg hne, lastLine]

theorem lastLine_cons_newline (text : List Char) : lastLine ('\n' :: text) = lastLine text := by
  by_cases h : '\n' ∈ text
  · exact lastLine_cons_of_mem _ h
  · rw [lastLine_of_notMem h, lastLine, List.reverse_cons, takeWhile_reverse_of_notMem h]
    simp

theorem placeAt_eq_lastLine (source : List Char) (k : Nat) : placeAt source k =
    ⟨1 + (source.take k).count '\n', 1 + (lastLine (source.take k)).length⟩ := by
  rw [placeAt, lastLine, List.length_reverse]

theorem sourceLines_cons_newline (rest : List Char) :
    sourceLines ('\n' :: rest) = [] :: sourceLines rest := by
  rw [sourceLines, if_pos rfl]

/-- A character that is no part of a line break stands at the front of the line that follows. -/
theorem sourceLines_cons {c : Char} {rest : List Char} (hc : c ≠ '\n')
    (hr : ¬ (c = '\r' ∧ rest.head? = some '\n')) :
    sourceLines (c :: rest) = (c :: (sourceLines rest).headD []) :: (sourceLines rest).tail := by
  rw [sourceLines, if_neg hc, if_neg hr]
  cases sourceLines rest <;> rfl

theorem notMem_of_mem_sourceLines {source line : List Char} (h : line ∈ sourceLines source) :
    '\n' ∉ line := by
  induction source generalizing line with
  | nil => cases h
  | cons c rest ih =>
    by_cases hc : c = '\n'
    · subst hc
      rw [sourceLines_cons_newline] at h
      rcases List.mem_cons.mp h with rfl | h
      · simp
      · exact ih h
    by_cases hr : c = '\r' ∧ rest.head? = some '\n'
    · obtain ⟨rfl, hr⟩ := hr
      rw [sourceLines, if_neg hc, if_pos ⟨rfl, hr⟩] at h
      exact ih h
    · rw [sourceLines_cons hc hr] at h
      have hhead : '\n' ∉ (sourceLines rest).headD [] := by
        rcases hlines : sourceLines rest with _ | ⟨line', lines⟩
        · simp
        · exact ih (hlines ▸ List.mem_cons_self : line' ∈ sourceLines rest)
      rcases List.mem_cons.mp h with rfl | h
      · intro hmem
        rcases List.mem_cons.mp hmem with hmem | hmem
        · exact hc hmem.symm
        · exact hhead hmem
      · exact ih (List.mem_of_mem_tail h)

/-- A run of characters that is no line break is kept as it stands. -/
theorem sourceLines_append {text next : List Char} (htext : text ≠ []) (hline : '\n' ∉ text)
    (hlast : text.getLast? ≠ some '\r') :
    ∃ after, (sourceLines (text ++ next))[0]? = some (text ++ after) := by
  induction text with
  | nil => exact absurd rfl htext
  | cons c text ih =>
    have hc : c ≠ '\n' := fun h => hline (h ▸ List.mem_cons_self)
    cases text with
    | nil =>
      have hr : ¬ (c = '\r' ∧ next.head? = some '\n') := fun h => hlast (by rw [h.1]; rfl)
      refine ⟨(sourceLines next).headD [], ?_⟩
      rw [List.cons_append, List.nil_append, sourceLines_cons hc hr]
      rfl
    | cons d text =>
      have hd : d ≠ '\n' := fun h => hline (by simp [h])
      obtain ⟨after, hafter⟩ := ih (List.cons_ne_nil d text)
        (fun h => hline (List.mem_cons_of_mem c h)) (by simpa using hlast)
      have hr : ¬ (c = '\r' ∧ (d :: text ++ next).head? = some '\n') := fun h => by
        simp [hd] at h
      refine ⟨after, ?_⟩
      rw [← List.head?_eq_getElem?] at hafter
      rw [List.cons_append, sourceLines_cons hc hr, List.headD_eq_head?_getD, hafter]
      rfl

/-- A run of characters that is no line break stands on its line behind those before it. -/
theorem getElem?_sourceLines {pre text next : List Char} (htext : text ≠ []) (hline : '\n' ∉ text)
    (hlast : text.getLast? ≠ some '\r') : ∃ after,
      (sourceLines (pre ++ (text ++ next)))[pre.count '\n']? =
        some (lastLine pre ++ (text ++ after)) := by
  induction pre with
  | nil => exact sourceLines_append htext hline hlast
  | cons c pre ih =>
    obtain ⟨after, hafter⟩ := ih
    refine ⟨after, ?_⟩
    rw [List.cons_append]
    by_cases hc : c = '\n'
    · subst hc
      rw [sourceLines_cons_newline, List.count_cons_self, List.getElem?_cons_succ, hafter,
        lastLine_cons_newline]
    rw [List.count_cons_of_ne hc]
    by_cases hr : c = '\r' ∧ (pre ++ (text ++ next)).head? = some '\n'
    · obtain ⟨rfl, hr⟩ := hr
      -- the run does not start with a newline, so the one behind the return comes before it
      have hmem : '\n' ∈ pre := by
        rcases pre with _ | ⟨d, pre⟩
        · rcases text with _ | ⟨d, text⟩
          · exact absurd rfl htext
          · exact absurd (by simpa using hr) (fun h : d = '\n' => hline (by simp [h]))
        · exact List.mem_of_mem_head? hr
      rw [sourceLines, if_neg hc, if_pos ⟨rfl, hr⟩, hafter, lastLine_cons_of_mem _ hmem]
    · rw [sourceLines_cons hc hr]
      by_cases hmem : '\n' ∈ pre
      · have hpos : 0 < pre.count '\n' := List.count_pos_iff.mpr hmem
        obtain ⟨n, hn⟩ := Nat.exists_eq_succ_of_ne_zero (Nat.pos_iff_ne_zero.mp hpos)
        rw [hn] at hafter ⊢
        rw [List.getElem?_cons_succ, List.getElem?_tail, hafter, lastLine_cons_of_mem _ hmem]
      · rw [List.count_eq_zero_of_not_mem hmem, ← List.head?_eq_getElem?] at hafter
        have hmem' : '\n' ∉ c :: pre := by simp [hmem, Ne.symm hc]
        rw [List.count_eq_zero_of_not_mem hmem, List.headD_eq_head?_getD, hafter,
          lastLine_of_notMem hmem, lastLine_of_notMem hmem']
        rfl

/-- What is no line break stands on the line of its place, behind as many characters as the column
says. -/
theorem sourceLine_of_drop {source text next : List Char} {i : Nat}
    (h : source.drop i = text ++ next) (htext : text ≠ []) (hline : '\n' ∉ text)
    (hlast : text.getLast? ≠ some '\r') : ∃ before after,
      (sourceLines source)[(placeAt source i).line - 1]? = some (before ++ (text ++ after)) ∧
        (placeAt source i).column = before.length + 1 := by
  have hat : ∃ after, (sourceLines (source.take i ++ (text ++ next)))[(source.take i).count '\n']? =
      some (lastLine (source.take i) ++ (text ++ after)) :=
    getElem?_sourceLines htext hline hlast
  obtain ⟨after, hafter⟩ := hat
  rw [← h, List.take_append_drop] at hafter
  rw [placeAt_eq_lastLine]
  refine ⟨_, after, ?_, Nat.add_comm _ _⟩
  rw [← hafter, Nat.add_sub_cancel_left]

end BraceLang
