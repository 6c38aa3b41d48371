import BraceLang.Proofs.Separators

/-!
# Errors leave the tokens alone

With a space for each character of the stretches that no token can use, a source has the same tokens
at the same places, and what is left of its errors are the points inside of numbers.

Such a stretch may only matter to the chunk in front of it, by its first character. No token goes on
with a space, and none of them went on with that character either (`Chunk.endsBefore_next`), while a
comment ends at a newline, which stays.
-/

namespace BraceLang

/-- The characters of a stretch, or as many spaces if no token can use it. -/
def Stretch.blanked (source : List Char) (p : Stretch) : List Char :=
  match p.content with
  | .fault _ => List.replicate (p.stop - p.start) ' '
  | _ => p.text source

/-- The source with its faulty stretches blanked out. -/
def blankFaults (source : String) : String :=
  String.ofList ((stretches source.toList 0 (chunks source.toList)).flatMap
    (Stretch.blanked source.toList))

def Chunk.blanked (k : Chunk) : List Char :=
  match k.shape with
  | .fault _ => List.replicate k.text.length ' '
  | _ => k.text

theorem Chunk.stretch_blanked {source next : List Char} {i : Nat} {k : Chunk}
    (h : source.drop i = k.text ++ next) :
    (k.stretch source i).blanked source = k.blanked := by
  have htext := stretch_text h
  rcases k with ⟨shape, text⟩
  cases shape with
  | fault what => simp [stretch, Stretch.blanked, blanked]
  | blank | comment | token => exact htext

theorem flatMap_stretches_blanked {source text : List Char} {i : Nat} (h : source.drop i = text) :
    (stretches source i (chunks text)).flatMap (Stretch.blanked source) =
      (chunks text).flatMap Chunk.blanked := by
  induction text using Chunk.chunks_induction generalizing i with
  | nil => rfl
  | cons c rest body next hcut ih =>
    rw [Chunk.chunks_of_cut hcut]
    have hk : source.drop i = (⟨(Chunk.extent c rest).1, c :: body⟩ : Chunk).text ++ next := by
      rw [h, hcut.split]
      rfl
    generalize (⟨(Chunk.extent c rest).1, c :: body⟩ : Chunk) = k at hk ⊢
    rw [stretches, List.flatMap_cons, List.flatMap_cons, Chunk.stretch_blanked hk,
      ih (Chunk.drop_stop hk)]

theorem toList_blankFaults (source : String) :
    (blankFaults source).toList = (chunks source.toList).flatMap Chunk.blanked := by
  rw [blankFaults, String.toList_ofList, flatMap_stretches_blanked List.drop_zero]

theorem Shape.Fits.notMem_newline {what : Fault} {text next : List Char}
    (h : (Shape.fault what).Fits text next) : '\n' ∉ text := by
  cases what with
  | strayBang =>
    rw [h.1]
    decide
  | unterminatedString =>
    obtain ⟨⟨body, rfl, -, hbody⟩, -⟩ := h
    simpa using hbody
  | invalidCharacter c =>
    rw [h.1, List.mem_singleton]
    rintro rfl
    exact h.2 (.inl (by decide))
  | extraPoint => exact h.elim

/-- Spaces take up as much of a line as the characters that they stand for. -/
theorem Location.after_spaces (p : Location) {text : List Char} (h : '\n' ∉ text) :
    p.after (List.replicate text.length ' ') = p.after text := by
  have hspaces : '\n' ∉ List.replicate text.length ' ' :=
    fun hmem => absurd (List.eq_of_mem_replicate hmem) (by decide)
  rw [after_of_notMem p h, after_of_notMem p hspaces, List.length_replicate]

/-- In a blanked text a space stands first, if not what stood there before. -/
theorem head?_flatMap_blanked {text : List Char} {d : Char}
    (hd : d ∈ ((chunks text).flatMap Chunk.blanked).head?) :
    d ∈ text.head? ∨ (d = ' ' ∧ text.head? ≠ some '\n') := by
  induction text using Chunk.chunks_induction with
  | nil => cases hd
  | cons c rest body next hcut _ =>
    rw [Chunk.chunks_of_cut hcut, List.flatMap_cons] at hd
    have hfits := hcut.fits
    generalize (Chunk.extent c rest).1 = shape at hd hfits
    cases shape with
    | fault what =>
      refine .inr ⟨(Option.some.inj hd).symm, fun hc => hfits.notMem_newline ?_⟩
      rw [← Option.some.inj hc]
      exact List.mem_cons_self
    | blank | comment | token => exact .inl hd

theorem EndsLine.blanked {text : List Char} (h : EndsLine text) :
    EndsLine ((chunks text).flatMap Chunk.blanked) := by
  intro d hd
  rcases head?_flatMap_blanked hd with hd | ⟨-, hne⟩
  · exact h d hd
  · rcases text with _ | ⟨c, rest⟩
    · cases hd
    · exact absurd (congrArg some (h c rfl)) hne

/-- A token that is read does not go on with the next character. -/
theorem Chunk.endsBefore_next {c : Char} {rest body next : List Char} {k : Kind}
    (hcut : Cut c rest (extent c rest) body next) (hk : (extent c rest).1 = .token k) :
    ∀ d ∈ next.head?, k.endsBefore d := by
  have hspells := hcut.fits
  rw [hk] at hspells
  have hcomment := no_comment_of_extent hk
  rw [hcut.split, ← List.cons_append] at hcomment
  obtain ⟨k', more, after, rfl, hk', hends⟩ := Kind.Spells.goesOn hspells hcomment
  have hextent : extent c rest = (.token k', (body ++ more).length) := by
    rw [hcut.split, ← List.append_assoc]
    exact extent_of_spells hk' hends
  -- the chunk ends behind `body`, so the longer text is no longer than that
  have hlength := hcut.length
  rw [hextent, List.length_append] at hlength
  obtain rfl : more = [] := List.length_eq_zero_iff.mp (by simpa using hlength)
  rw [hextent] at hk
  cases hk
  exact hends

/-- The points of numbers are no faults of their own. -/
theorem Shape.Fits.ne_extraPoint {what : Fault} {text next : List Char}
    (h : (Shape.fault what).Fits text next) : what ≠ .extraPoint := by
  rintro rfl
  exact h

theorem Chunk.filter_errors_token (k : Kind) (text : List Char) (p : Location) :
    ((⟨.token k, text⟩ : Chunk).errors p).filter (·.fault = .extraPoint) =
      (⟨.token k, text⟩ : Chunk).errors p := by
  rw [List.filter_eq_self]
  intro e he
  cases k
  case floatLiteral =>
    obtain ⟨place, -, rfl⟩ := List.mem_map.mp he
    rfl
  all_goals cases he

def Lexed.pointErrors (lexed : Lexed) : List LexicalError :=
  lexed.errors.filter (·.fault = .extraPoint)

theorem place_blanked (text : List Char) (p : Location) :
    Lexed.place p (chunks ((chunks text).flatMap Chunk.blanked)) =
      ⟨(Lexed.place p (chunks text)).tokens, (Lexed.place p (chunks text)).pointErrors⟩ := by
  induction text using Chunk.chunks_induction generalizing p with
  | nil => rfl
  | cons c rest body next hcut ih =>
    have hfits := hcut.fits
    have hends := fun k => Chunk.endsBefore_next (k := k) hcut
    rw [Chunk.chunks_of_cut hcut, List.flatMap_cons]
    generalize (Chunk.extent c rest).1 = shape at hfits hends ⊢
    cases shape with
    | blank =>
      obtain ⟨d, hd, hblank⟩ := hfits
      have hall : ∀ e ∈ c :: body, isBlank e := by
        rw [hd]
        intro e he
        rw [List.mem_singleton.mp he]
        exact isBlank_of_mem hblank
      exact (place_blanks hall p _).trans (ih _)
    | comment =>
      obtain ⟨⟨inside, hinside⟩, hline, hnext⟩ := hfits
      rw [hinside] at hline ⊢
      have hbody : '\n' ∉ inside := fun h => hline (by simp [h])
      exact (congrArg (Lexed.place p) (chunks_comment hbody hnext.blanked)).trans (ih _)
    | token k =>
      have hword : chunks ((c :: body) ++ (chunks next).flatMap Chunk.blanked) =
          ⟨.token k, c :: body⟩ :: chunks ((chunks next).flatMap Chunk.blanked) := by
        refine chunks_word hfits fun d hd => ?_
        rcases head?_flatMap_blanked hd with hd | ⟨rfl, -⟩
        · exact hends k rfl d hd
        · exact k.endsBefore_of_isBlank (by decide)
      refine (congrArg (Lexed.place p) hword).trans ?_
      rw [Lexed.place, Lexed.place, ih, Lexed.pointErrors, Lexed.pointErrors, List.filter_append,
        Chunk.filter_errors_token]
    | fault what =>
      have hspaces : ∀ e ∈ List.replicate (c :: body).length ' ', isBlank e := by
        intro e he
        rw [List.eq_of_mem_replicate he]
        decide
      refine (place_blanks hspaces p _).trans ?_
      rw [p.after_spaces hfits.notMem_newline, ih, Lexed.place, Lexed.pointErrors,
        Lexed.pointErrors]
      simp [Chunk.token?, Chunk.errors, hfits.ne_extraPoint]

theorem Fault.message_eq_extraPoint_iff (what : Fault) :
    what.message = Fault.extraPoint.message ↔ what = .extraPoint := by
  refine ⟨fun h => ?_, fun h => by rw [h]⟩
  cases what with
  | extraPoint => rfl
  | strayBang | unterminatedString => exact absurd h (by decide)
  | invalidCharacter c =>
    have hstart : (invalidCharacter c).message.toList.head? = some 'I' :=
      head?_toList_append (head?_toList_append rfl (toString c)) "'"
    rw [h] at hstart
    exact absurd hstart (by decide)

/-- The source is covered by stretches that are what they are said to be. If those that no token can
use are blanked out, the tokens stay as they are, and so do the diagnostics about points inside of
numbers. No other diagnostics are left. -/
theorem tokenize_blankFaults (source : String) :
    Abut 0 (stretches source.toList 0 (chunks source.toList)) source.toList.length ∧
    (∀ p ∈ stretches source.toList 0 (chunks source.toList), p.Fits source.toList) ∧
    (tokenize (blankFaults source)).tokens = (tokenize source).tokens ∧
    (tokenize (blankFaults source)).diagnostics =
      (tokenize source).diagnostics.filter (·.message = Fault.extraPoint.message) := by
  have hdescribes := describes_source source
  have hplace : tokenize (blankFaults source) =
      ⟨(tokenize source).tokens, (tokenize source).pointErrors⟩ := by
    rw [tokenize, toList_blankFaults]
    exact place_blanked source.toList Location.origin
  refine ⟨hdescribes.abut, hdescribes.fits, by rw [hplace], ?_⟩
  rw [hplace, Lexed.diagnostics, Lexed.diagnostics, List.filter_map, Lexed.pointErrors]
  refine congrArg _ (List.filter_congr fun e _ => ?_)
  rw [Function.comp_apply, decide_eq_decide]
  exact (Fault.message_eq_extraPoint_iff e.fault).symm

/-- A string that nothing ends is blanked out up to the end of its line, with what looks like a
comment in it, and the point inside of the number stays wrong. -/
theorem tokenize_blankFaults_unended :
    (⟨.fault .unterminatedString, 4, 9⟩ : Stretch).Fits "a!b \"// $\n1.2.3#=".toList ∧
    blankFaults "a!b \"// $\n1.2.3#=" = "a b      \n1.2.3 =" ∧
    (tokenize "a b      \n1.2.3 =").tokens = (tokenize "a!b \"// $\n1.2.3#=").tokens ∧
    (tokenize "a b      \n1.2.3 =").diagnostics =
      [⟨.lexer, ⟨2, 4⟩, "Float literals must only contain one decimal point"⟩] := by
  obtain ⟨-, hfits, htokens, hdiagnostics⟩ := tokenize_blankFaults "a!b \"// $\n1.2.3#="
  have hblanked : blankFaults "a!b \"// $\n1.2.3#=" = "a b      \n1.2.3 =" := by decide +kernel
  rw [hblanked] at htokens hdiagnostics
  refine ⟨hfits _ ?_, hblanked, htokens, hdiagnostics.trans (by decide +kernel)⟩
  exact List.mem_of_getElem? (i := 4) rfl

end BraceLang
