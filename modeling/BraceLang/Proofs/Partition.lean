import BraceLang.Diagnostic
import BraceLang.Proofs.Spelling

/-!
# Tokens and errors partition the source

The source is covered by stretches without gaps or overlaps. Each stretch is a token, a blank, a
comment or characters that no token can use, and a token is placed by the line and the column of its
offsets. The errors are those of the stretches, and their places increase.

The offsets are those of an induction over the chunks: what is left of the source at offset `i` is
what the remaining chunks are cut from.
-/

namespace BraceLang

/-- The line and the column behind the first `k` characters: newlines count lines, and characters
since the last one count columns. -/
def placeAt (source : List Char) (k : Nat) : Location :=
  ⟨1 + (source.take k).count '\n', 1 + ((source.take k).reverse.takeWhile (· ≠ '\n')).length⟩

def Location.Before (p q : Location) : Prop :=
  p.line < q.line ∨ (p.line = q.line ∧ p.column < q.column)

theorem Location.Before.trans {p q r : Location} (h : p.Before q) (h' : q.Before r) :
    p.Before r := by
  unfold Before at *
  omega

theorem Location.before_next (p : Location) (c : Char) : p.Before (p.next c) := by
  unfold Before next
  by_cases hc : c = '\n'
  · rw [if_pos hc]
    exact .inl (Nat.lt_succ_self _)
  · rw [if_neg hc]
    exact .inr ⟨rfl, Nat.lt_succ_self _⟩

theorem placeAt_succ {source : List Char} {k : Nat} {c : Char} (h : source[k]? = some c) :
    placeAt source (k + 1) = (placeAt source k).next c := by
  have htake : source.take (k + 1) = source.take k ++ [c] := by
    rw [List.take_add_one, h]
    rfl
  unfold placeAt Location.next
  rw [htake]
  by_cases hc : c = '\n'
  · subst hc
    simp [Nat.add_assoc]
  · simp [hc, Nat.add_comm]

/-- Behind a run of characters the place is the one that reading the run leads to. -/
theorem placeAt_add {source text next : List Char} {k : Nat} (h : source.drop k = text ++ next) :
    placeAt source (k + text.length) = (placeAt source k).after text := by
  induction text generalizing k with
  | nil => rfl
  | cons c text ih =>
    have hc : source[k]? = some c := by
      rw [← Nat.add_zero k, ← List.getElem?_drop, h]
      rfl
    have hdrop : source.drop (k + 1) = text ++ next := by
      rw [← List.drop_drop, h]
      rfl
    rw [Location.after_cons, ← placeAt_succ hc, ← ih hdrop, List.length_cons]
    congr 1
    omega

theorem placeAt_before {source : List Char} {k l : Nat} (h : k < l) (hl : l ≤ source.length) :
    (placeAt source k).Before (placeAt source l) := by
  induction l with
  | zero => omega
  | succ l ih =>
    have hstep : (placeAt source l).Before (placeAt source (l + 1)) := by
      rw [placeAt_succ (List.getElem?_eq_getElem (by omega))]
      exact Location.before_next _ _
    by_cases hk : k = l
    · rwa [hk]
    · exact (ih (by omega) (by omega)).trans hstep

inductive Content where
  | token (t : Token)
  | blank
  | comment
  | fault (what : Fault)

def Content.shape : Content → Shape
  | token t => .token t.kind
  | blank => .blank
  | comment => .comment
  | fault what => .fault what

structure Stretch where
  content : Content
  start : Nat
  stop : Nat

namespace Stretch

variable (source : List Char)

def text (p : Stretch) : List Char :=
  (source.drop p.start).take (p.stop - p.start)

/-- The stretch is what it is said to be, and a token stands on one line where its offsets are. -/
structure Fits (p : Stretch) : Prop where
  nonempty : p.start < p.stop
  inside : p.stop ≤ source.length
  shape : p.content.shape.Fits (p.text source) (source.drop p.stop)
  token : ∀ t, p.content = .token t → t.lexeme.toList = p.text source ∧
    t.start = placeAt source p.start ∧ t.stop = placeAt source p.stop ∧ t.start.line = t.stop.line

def token? (p : Stretch) : Option Token :=
  match p.content with
  | .token t => some t
  | _ => none

def points (p : Stretch) : List Nat :=
  (List.range' p.start (p.stop - p.start)).filter fun k => source[k]? = some '.'

/-- A faulty stretch is one error, at its first character, and so is each point but the first of a
number with points. -/
def faults (p : Stretch) : List (Fault × Nat) :=
  match p.content with
  | .fault what => [(what, p.start)]
  | .token t => if t.kind = .floatLiteral then (p.points source).tail.map (.extraPoint, ·) else []
  | _ => []

end Stretch

/-- The stretches lie one behind another from one offset to another. -/
def Abut : Nat → List Stretch → Nat → Prop
  | k, [], last => k = last
  | k, p :: stretches, last => p.start = k ∧ Abut p.stop stretches last

theorem Abut.le_start {k last : Nat} {stretches : List Stretch} (h : Abut k stretches last)
    (hp : ∀ p ∈ stretches, p.start < p.stop) : ∀ p ∈ stretches, k ≤ p.start := by
  induction stretches generalizing k with
  | nil => simp
  | cons q stretches ih =>
    obtain ⟨rfl, h⟩ := h
    have hq := hp q List.mem_cons_self
    intro p hmem
    rcases List.mem_cons.mp hmem with rfl | hmem
    · exact Nat.le_refl _
    · have := ih h (fun p hp' => hp p (List.mem_cons_of_mem q hp')) p hmem
      omega

theorem Abut.pairwise {k last : Nat} {stretches : List Stretch} (h : Abut k stretches last)
    (hp : ∀ p ∈ stretches, p.start < p.stop) : stretches.Pairwise fun p q => p.stop ≤ q.start := by
  induction stretches generalizing k with
  | nil => exact .nil
  | cons q stretches ih =>
    obtain ⟨rfl, h⟩ := h
    have hp' : ∀ p ∈ stretches, p.start < p.stop := fun p hmem => hp p (List.mem_cons_of_mem q hmem)
    exact .cons (h.le_start hp') (ih h hp')

theorem Stretch.mem_faults {source : List Char} {p : Stretch} (hp : p.start < p.stop)
    {f : Fault × Nat} (h : f ∈ p.faults source) : p.start ≤ f.2 ∧ f.2 < p.stop := by
  unfold faults at h
  split at h
  · obtain rfl := List.mem_singleton.mp h
    exact ⟨Nat.le_refl _, hp⟩
  · split_ifs at h
    · obtain ⟨k, hk, rfl⟩ := List.mem_map.mp h
      have hmem := (List.mem_filter.mp (List.mem_of_mem_tail hk)).1
      rw [List.mem_range'_1] at hmem
      exact ⟨hmem.1, by omega⟩
    · cases h
  · cases h

theorem Stretch.faults_pairwise (source : List Char) (p : Stretch) :
    (p.faults source).Pairwise fun f f' => f.2 < f'.2 := by
  unfold faults
  split
  · exact List.pairwise_singleton ..
  · split_ifs
    · rw [List.pairwise_map]
      exact (List.Pairwise.filter _ List.pairwise_lt_range').sublist (List.tail_sublist _)
    · exact .nil
  · exact .nil

theorem faults_pairwise {source : List Char} {stretches : List Stretch} {k last : Nat}
    (h : Abut k stretches last) (hp : ∀ p ∈ stretches, p.start < p.stop) :
    (stretches.flatMap (Stretch.faults source)).Pairwise fun f f' => f.2 < f'.2 := by
  rw [List.pairwise_flatMap]
  refine ⟨fun p _ => p.faults_pairwise source, ?_⟩
  refine (h.pairwise hp).imp_of_mem fun {p q} hpm hqm hpq f hf f' hf' => ?_
  have hf := Stretch.mem_faults (hp p hpm) hf
  have hf' := Stretch.mem_faults (hp q hqm) hf'
  omega

def Chunk.stretch (source : List Char) (i : Nat) (k : Chunk) : Stretch where
  content := match k.shape with
    | .token kind => .token ⟨kind, placeAt source i, placeAt source (i + k.text.length),
        String.ofList k.text⟩
    | .blank => .blank
    | .comment => .comment
    | .fault what => .fault what
  start := i
  stop := i + k.text.length

def stretches (source : List Char) : Nat → List Chunk → List Stretch
  | _, [] => []
  | i, k :: rest => k.stretch source i :: stretches source (i + k.text.length) rest

theorem Kind.Spells.notMem_newline {k : Kind} {text : List Char} (h : k.Spells text) :
    '\n' ∉ text := by
  intro hmem
  by_cases hk : k = .stringLiteral
  · subst hk
    obtain ⟨body, rfl, hbody⟩ := h
    rcases List.mem_cons.mp hmem with hmem | hmem
    · cases hmem
    · rcases List.mem_append.mp hmem with hmem | hmem
      · exact absurd (hbody _ hmem) (by decide)
      · simp at hmem
  · exact h.not_isBlank hk hmem rfl

section Chunk

variable {source next : List Char} {i : Nat} {k : Chunk} (h : source.drop i = k.text ++ next)

include h

theorem Chunk.drop_stop : source.drop (i + k.text.length) = next := by
  rw [← List.drop_drop, h, List.drop_left]

theorem Chunk.stretch_text : (k.stretch source i).text source = k.text := by
  simp only [Stretch.text, stretch, h, Nat.add_sub_cancel_left, List.take_left]

theorem Chunk.stretch_fits (hk : k.text ≠ []) (hshape : k.shape.Fits k.text next) :
    (k.stretch source i).Fits source := by
  have hpos := List.length_pos_iff.mpr hk
  refine ⟨Nat.lt_add_of_pos_right hpos, ?_, ?_, ?_⟩
  · have hlen := congrArg List.length h
    simp only [List.length_drop, List.length_append] at hlen
    change i + k.text.length ≤ source.length
    omega
  · rw [stretch_text h]
    change (k.stretch source i).content.shape.Fits k.text (source.drop (i + k.text.length))
    rw [drop_stop h]
    rcases k with ⟨shape, text⟩
    cases shape <;> exact hshape
  · intro t ht
    rw [stretch_text h]
    rcases k with ⟨shape, text⟩
    cases shape <;> cases ht
    refine ⟨String.toList_ofList, rfl, rfl, ?_⟩
    have hline : '\n' ∉ text := Kind.Spells.notMem_newline hshape
    simp only
    rw [placeAt_add h, Location.after_of_notMem _ hline]

theorem Chunk.stretch_token? : (k.stretch source i).token? = k.token? (placeAt source i) := by
  rcases k with ⟨shape, text⟩
  cases shape <;> simp only [stretch, Stretch.token?, token?]
  rw [placeAt_add h]

omit h in
theorem Chunk.points_eq {text : List Char} {i : Nat} (h : source.drop i = text ++ next) :
    points (placeAt source i) text =
      ((List.range' i text.length).filter fun k => source[k]? = some '.').map (placeAt source) := by
  induction text generalizing i with
  | nil => rfl
  | cons c text ih =>
    have hc : source[i]? = some c := by
      rw [← Nat.add_zero i, ← List.getElem?_drop, h]
      rfl
    have hdrop : source.drop (i + 1) = text ++ next := by
      rw [← List.drop_drop, h]
      rfl
    rw [points, ← placeAt_succ hc, ih hdrop, List.length_cons, List.range'_succ]
    by_cases hp : c = '.' <;> simp [hc, hp]

theorem Chunk.stretch_faults : ((k.stretch source i).faults source).map
    (fun f => (⟨f.1, placeAt source f.2⟩ : LexicalError)) = k.errors (placeAt source i) := by
  rcases k with ⟨shape, text⟩
  cases shape with
  | blank => rfl
  | comment => rfl
  | fault what => rfl
  | token kind =>
    by_cases hkind : kind = .floatLiteral
    · subst hkind
      have htext : source.drop i = text ++ next := h
      simp only [stretch, Stretch.faults, errors, if_true, Stretch.points, Nat.add_sub_cancel_left]
      rw [points_eq htext, ← List.map_tail, List.map_map, List.map_map]
      rfl
    · simp only [stretch, Stretch.faults, if_neg hkind, List.map_nil]
      cases kind <;> first | rfl | exact absurd rfl hkind

end Chunk

structure Describes (source : List Char) (i : Nat) (ks : List Chunk) : Prop where
  abut : Abut i (stretches source i ks) source.length
  fits : ∀ p ∈ stretches source i ks, p.Fits source
  tokens : (Lexed.place (placeAt source i) ks).tokens =
    (stretches source i ks).filterMap Stretch.token?
  errors : (Lexed.place (placeAt source i) ks).errors =
    ((stretches source i ks).flatMap (Stretch.faults source)).map fun f => ⟨f.1, placeAt source f.2⟩

theorem describes_chunks {source text : List Char} {i : Nat} (hi : i ≤ source.length)
    (h : source.drop i = text) : Describes source i (chunks text) := by
  induction text using Chunk.chunks_induction generalizing i with
  | nil =>
    have hlen := congrArg List.length h
    simp only [List.length_drop, List.length_nil] at hlen
    exact ⟨Nat.le_antisymm hi (by omega), by simp [stretches], rfl, rfl⟩
  | cons c rest body next hcut ih =>
    rw [Chunk.chunks_of_cut hcut]
    have hk : source.drop i = (⟨(Chunk.extent c rest).1, c :: body⟩ : Chunk).text ++ next := by
      rw [h, hcut.split]
      rfl
    generalize hchunk : (⟨(Chunk.extent c rest).1, c :: body⟩ : Chunk) = k at hk ⊢
    have hfits := Chunk.stretch_fits hk (by rw [← hchunk]; exact List.cons_ne_nil _ _)
      (by rw [← hchunk]; exact hcut.fits)
    have hlater : Describes source (i + k.text.length) (chunks next) :=
      ih hfits.inside (Chunk.drop_stop hk)
    have hplace := placeAt_add hk
    refine ⟨⟨rfl, hlater.abut⟩, ?_, ?_, ?_⟩
    · intro p hp
      rcases List.mem_cons.mp hp with rfl | hp
      · exact hfits
      · exact hlater.fits p hp
    · rw [Lexed.place, ← hplace, hlater.tokens, stretches, List.filterMap_cons,
        Chunk.stretch_token? hk]
      cases k.token? (placeAt source i) <;> rfl
    · rw [Lexed.place, ← hplace, hlater.errors, stretches, List.flatMap_cons, List.map_append,
        Chunk.stretch_faults hk]

/-- Every source is cut, left to right, into stretches that abut from its start to its end. The
tokens are those of the stretches, where the offsets of the stretches say. The errors are those of
the stretches, and each is reported behind the one before it. -/
theorem tokenize_partition (source : String) : ∃ ps : List Stretch,
    Abut 0 ps source.toList.length ∧ (∀ p ∈ ps, p.Fits source.toList) ∧
      ps.Pairwise (fun p q => p.stop ≤ q.start) ∧
      (tokenize source).tokens = ps.filterMap Stretch.token? ∧
      (tokenize source).errors = (ps.flatMap (Stretch.faults source.toList)).map
        (fun f => ⟨f.1, placeAt source.toList f.2⟩) ∧
      (tokenize source).diagnostics.Pairwise fun d d' => d.location.Before d'.location := by
  have h : Describes source.toList 0 (chunks source.toList) :=
    describes_chunks (Nat.zero_le _) List.drop_zero
  have hnonempty : ∀ p ∈ stretches source.toList 0 (chunks source.toList), p.start < p.stop :=
    fun p hp => (h.fits p hp).nonempty
  refine ⟨_, h.abut, h.fits, h.abut.pairwise hnonempty, h.tokens, h.errors, ?_⟩
  have herrors : (tokenize source).errors = _ := h.errors
  rw [Lexed.diagnostics, herrors, List.pairwise_map, List.pairwise_map]
  refine (faults_pairwise h.abut hnonempty).imp_of_mem fun {f f'} _ hf' hlt => ?_
  obtain ⟨p, hp, hf'⟩ := List.mem_flatMap.mp hf'
  have hstop := (Stretch.mem_faults (hnonempty p hp) hf').2
  exact placeAt_before hlt (by have := (h.fits p hp).inside; omega)

end BraceLang
