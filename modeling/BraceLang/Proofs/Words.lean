import BraceLang.Proofs.Spelling
import BraceLang.Tree.Printed

/-!
# Written words are read back

A word of a written text becomes a token of its own if the character behind it cannot go on with it
(`Kind.endsBefore`). So pieces whose words are separated in this way (`Separated`) are read as just
these words, without an error.
-/

namespace BraceLang

def Kind.endsBefore (k : Kind) (c : Char) : Bool :=
  match k with
  | .intLiteral | .floatLiteral => !isDigitOrPoint c
  | .identifier | .reservedReturn | .reservedIf | .reservedElse | .reservedWhile | .reservedFor =>
    !isWordPart c
  | .equals | .lessThan | .greaterThan => c ≠ '='
  | .slash => c ≠ '/'
  | _ => true

theorem takeWhile_append_of_head {p : Char → Bool} {body next : List Char}
    (hbody : ∀ c ∈ body, p c) (hnext : ∀ c ∈ next.head?, p c = false) :
    (body ++ next).takeWhile p = body := by
  rw [List.takeWhile_append_of_pos hbody]
  cases next with
  | nil => simp
  | cons c next => simp [hnext c rfl]

theorem head?_toList_append {text : String} {c : Char} (h : text.toList.head? = some c)
    (next : String) : (text ++ next).toList.head? = some c := by
  rw [String.toList_append, List.head?_append, h]
  rfl

theorem not_isBlank_of_isWordPart {c : Char} (h : isWordPart c) : ¬ isBlank c := by
  intro hblank
  have hmem := Chunk.mem_of_isBlank hblank
  simp only [List.mem_cons, List.not_mem_nil, or_false] at hmem
  rcases hmem with rfl | rfl | rfl | rfl <;> exact absurd h (by decide)

theorem isWordPart_of_isDigit {c : Char} (h : c.isDigit) : isWordPart c := by
  simp [isWordPart, Char.isAlphanum, h]

theorem isWordPart_of_isWordStart {c : Char} (h : isWordStart c) : isWordPart c := by
  simp only [isWordStart, isWordPart, Char.isAlphanum, Bool.or_eq_true] at h ⊢
  rcases h with h | h
  · exact .inl (.inl h)
  · exact .inr h

/-- Letters and the underscore come after the digits. -/
theorem not_isDigit_of_isWordStart {c : Char} (h : isWordStart c) : ¬ c.isDigit := by
  have hlow : 'A'.val ≤ c.val := by
    simp only [isWordStart, Bool.or_eq_true, decide_eq_true_eq] at h
    rcases h with h | rfl
    · have hcase : (c.isUpper || c.isLower) = true := h
      rcases Bool.or_eq_true_iff.mp hcase with h | h
      · have hupper : 'A'.val ≤ c.val ∧ c.val ≤ 'Z'.val := of_decide_eq_true h
        exact hupper.1
      · have hlower : (decide ('a'.val ≤ c.val) && decide (c.val ≤ 'z'.val)) = true := h
        have hle := of_decide_eq_true (Bool.and_eq_true_iff.mp hlower).1
        exact UInt32.le_trans (by decide) hle
    · decide
  intro hdigit
  simp only [Char.isDigit, Bool.and_eq_true, decide_eq_true_eq] at hdigit
  exact absurd (UInt32.le_trans hlow hdigit.2) (by decide)

namespace Chunk

variable {c : Char} {body next : List Char}

theorem extent_of_isDigit (h : c.isDigit) (rest : List Char) :
    extent c rest = (.token (number rest).1, (number rest).2) := by
  unfold extent
  rw [if_neg (not_isBlank_of_isWordPart (isWordPart_of_isDigit h)), if_pos h]

theorem extent_of_isWordStart (h : isWordStart c) (hbody : ∀ d ∈ body, isWordPart d)
    (hnext : ∀ d ∈ next.head?, isWordPart d = false) :
    extent c (body ++ next) = (.token (Kind.ofWord (c :: body)), body.length) := by
  unfold extent
  rw [if_neg (not_isBlank_of_isWordPart (isWordPart_of_isWordStart h)),
    if_neg (not_isDigit_of_isWordStart h), if_pos h]
  simp only [takeWhile_append_of_head hbody hnext]

theorem number_of_digits (hbody : ∀ d ∈ body, d.isDigit)
    (hnext : ∀ d ∈ next.head?, isDigitOrPoint d = false) :
    number (body ++ next) = (.intLiteral, body.length) := by
  have hdigit : ∀ d ∈ next.head?, d.isDigit = false := by
    intro d hd
    have := hnext d hd
    simp only [isDigitOrPoint, Bool.or_eq_false_iff] at this
    exact this.1
  have hpoint : next.head? ≠ some '.' := by
    intro h
    exact absurd (hnext '.' h) (by decide)
  unfold number
  simp only [takeWhile_append_of_head hbody hdigit, List.drop_left, if_neg hpoint]

theorem number_of_point {whole tail : List Char} (hwhole : ∀ d ∈ whole, d.isDigit)
    (htail : ∀ d ∈ tail, isDigitOrPoint d) (hnext : ∀ d ∈ next.head?, isDigitOrPoint d = false) :
    number (whole ++ '.' :: tail ++ next) =
      (.floatLiteral, (whole ++ '.' :: tail).length) := by
  have hall : ∀ d ∈ whole ++ '.' :: tail, isDigitOrPoint d := by
    intro d hd
    rcases List.mem_append.mp hd with hd | hd
    · simp [isDigitOrPoint, hwhole d hd]
    · rcases List.mem_cons.mp hd with rfl | hd
      · decide
      · exact htail d hd
  have hsplit : whole ++ '.' :: tail ++ next = whole ++ ('.' :: tail ++ next) := by simp
  have hfirst : (whole ++ '.' :: tail ++ next).takeWhile Char.isDigit = whole := by
    rw [hsplit]
    exact takeWhile_append_of_head hwhole (by rintro d ⟨⟩; decide)
  have hhead : ((whole ++ '.' :: tail ++ next).drop whole.length).head? = some '.' := by
    rw [hsplit, List.drop_left]
    rfl
  unfold number
  simp only [hfirst, hhead, if_true, takeWhile_append_of_head hall hnext]

theorem quoted_of_body (hbody : ∀ d ∈ body, staysInString d) :
    quoted (body ++ ['"'] ++ next) = (.token .stringLiteral, (body ++ ['"']).length) := by
  have hsplit : body ++ ['"'] ++ next = body ++ '"' :: next := by simp
  have hfirst : (body ++ ['"'] ++ next).takeWhile staysInString = body := by
    rw [hsplit]
    exact takeWhile_append_of_head hbody (by rintro d ⟨⟩; decide)
  have hhead : ((body ++ ['"'] ++ next).drop body.length).head? = some '"' := by
    rw [hsplit, List.drop_left]
    rfl
  unfold quoted
  simp only [hfirst, hhead, if_true, List.length_append, List.length_singleton]

/-- A mark is read as itself, unless an equals sign or a slash makes it longer. -/
theorem extent_of_mark {k : Kind} (hmark : Kind.ofMark? c = some k)
    (hnext : ∀ d ∈ next.head?, k.endsBefore d) : extent c next = (.token k, 0) := by
  have hequals : (if next.head? = some '=' then Kind.ofMarkEquals? c else none) = none := by
    split_ifs with h
    · have hends := hnext '=' h
      unfold Kind.ofMark? at hmark
      split at hmark <;> cases hmark <;> first | rfl | exact absurd hends (by decide)
    · rfl
  have hslash : ¬ (c = '/' ∧ next.head? = some '/') := by
    rintro ⟨rfl, h⟩
    cases hmark
    exact absurd (hnext '/' h) (by decide)
  have hother : isBlank c = false ∧ c.isDigit = false ∧ isWordStart c = false ∧ c ≠ '"' := by
    unfold Kind.ofMark? at hmark
    split at hmark <;> cases hmark <;> decide
  obtain ⟨hblank, hdigit, hword, hquote⟩ := hother
  unfold extent
  rw [if_neg (by simp [hblank]), if_neg (by simp [hdigit]), if_neg (by simp [hword]), if_neg hquote,
    if_neg hslash]
  unfold mark
  rw [hequals]
  simp only [hmark]

theorem extent_of_markEquals {k : Kind} (hmark : Kind.ofMarkEquals? c = some k) :
    extent c ('=' :: next) = (.token k, 1) := by
  have hother : isBlank c = false ∧ c.isDigit = false ∧ isWordStart c = false ∧ c ≠ '"' ∧
      c ≠ '/' := by
    unfold Kind.ofMarkEquals? at hmark
    split at hmark <;> cases hmark <;> decide
  obtain ⟨hblank, hdigit, hword, hquote, hslash⟩ := hother
  unfold extent
  rw [if_neg (by simp [hblank]), if_neg (by simp [hdigit]), if_neg (by simp [hword]), if_neg hquote,
    if_neg (by simp [hslash])]
  have hequals : (if ('=' :: next).head? = some '=' then Kind.ofMarkEquals? c else none) = some k :=
    (if_pos rfl).trans hmark
  unfold mark
  rw [hequals]

/-- A word is read back as a token of its kind. -/
theorem extent_of_spells {k : Kind} (hk : k.Spells (c :: body))
    (hnext : ∀ d ∈ next.head?, k.endsBefore d) :
    extent c (body ++ next) = (.token k, body.length) := by
  cases k
  case intLiteral =>
    obtain ⟨-, hall⟩ := hk
    rw [extent_of_isDigit (hall c List.mem_cons_self), number_of_digits
      (fun d hd => hall d (List.mem_cons_of_mem c hd)) fun d hd => by
        simpa [Kind.endsBefore] using hnext d hd]
  case floatLiteral =>
    obtain ⟨whole, tail, heq, hne, hwhole, htail⟩ := hk
    rcases whole with _ | ⟨d, whole⟩
    · exact absurd rfl hne
    rw [List.cons_append] at heq
    obtain ⟨rfl, rfl⟩ := List.cons.inj heq
    rw [extent_of_isDigit (hwhole c List.mem_cons_self), number_of_point
      (fun d hd => hwhole d (List.mem_cons_of_mem c hd)) htail fun d hd => by
        simpa [Kind.endsBefore] using hnext d hd]
  case stringLiteral =>
    obtain ⟨inside, heq, hinside⟩ := hk
    obtain ⟨rfl, rfl⟩ := List.cons.inj heq
    exact quoted_of_body hinside
  case identifier =>
    obtain ⟨d, tail, heq, hd, htail, hword⟩ := hk
    obtain ⟨rfl, rfl⟩ := List.cons.inj heq
    rw [extent_of_isWordStart hd htail fun e he => by simpa [Kind.endsBefore] using hnext e he,
      hword]
  case reservedReturn | reservedIf | reservedElse | reservedWhile | reservedFor =>
    obtain ⟨s, hs, heq⟩ := hk
    cases hs
    obtain ⟨rfl, rfl⟩ := List.cons.inj heq
    exact extent_of_isWordStart (by decide) (List.all_eq_true.mp (by decide)) fun e he => by
      simpa [Kind.endsBefore] using hnext e he
  case equalsEquals | bangEquals | lessThanEquals | greaterThanEquals =>
    obtain ⟨s, hs, heq⟩ := hk
    cases hs
    obtain ⟨rfl, rfl⟩ := List.cons.inj heq
    exact extent_of_markEquals rfl
  all_goals
    obtain ⟨s, hs, heq⟩ := hk
    cases hs
    obtain ⟨rfl, rfl⟩ := List.cons.inj heq
    exact extent_of_mark rfl hnext

end Chunk

/-- A text that a token of the kind may have without an error. -/
structure Kind.Writes (k : Kind) (text : List Char) : Prop where
  spells : k.Spells text
  onePoint : k = .floatLiteral → text.count '.' ≤ 1

def Piece.chars (ps : List Piece) : List Char :=
  ps.flatMap fun p => p.text.toList

def Piece.words (ps : List Piece) : List (Kind × String) :=
  ps.filterMap fun
    | .word k text => some (k, text)
    | .gap _ => none

def Token.word (t : Token) : Kind × String :=
  (t.kind, t.lexeme)

/-- Before the characters `next`, each word among the pieces is read as a token of its own. -/
def Separated : List Piece → List Char → Prop
  | [], _ => True
  | .gap text :: ps, next => (∀ c ∈ text.toList, isBlank c) ∧ Separated ps next
  | .word k text :: ps, next => k.Writes text.toList ∧
      (∀ c ∈ (Piece.chars ps ++ next).head?, k.endsBefore c) ∧ Separated ps next

@[simp] theorem Piece.chars_append (ps qs : List Piece) :
    chars (ps ++ qs) = chars ps ++ chars qs :=
  List.flatMap_append

@[simp] theorem Piece.words_append (ps qs : List Piece) :
    words (ps ++ qs) = words ps ++ words qs :=
  List.filterMap_append ..

theorem Separated.append {ps qs : List Piece} {next : List Char}
    (hp : Separated ps (Piece.chars qs ++ next)) (hq : Separated qs next) :
    Separated (ps ++ qs) next := by
  induction ps with
  | nil => exact hq
  | cons p ps ih =>
    rw [List.cons_append]
    cases p with
    | gap text => exact ⟨hp.1, ih hp.2⟩
    | word k text =>
      refine ⟨hp.1, ?_, ih hp.2.2⟩
      rw [Piece.chars_append, List.append_assoc]
      exact hp.2.1

theorem length_points (p : Location) (text : List Char) :
    (Chunk.points p text).length = text.count '.' := by
  induction text generalizing p with
  | nil => rfl
  | cons c text ih =>
    by_cases hc : c = '.' <;> simp [Chunk.points, hc, ih]

/-- A clean word has no error in it. -/
theorem Kind.Writes.errors_eq_nil {k : Kind} {text : List Char} (h : k.Writes text) (p : Location) :
    (⟨.token k, text⟩ : Chunk).errors p = [] := by
  by_cases hk : k = .floatLiteral
  · subst hk
    have hlen := h.onePoint rfl
    rw [← length_points p] at hlen
    have htail : (Chunk.points p text).tail = [] :=
      List.length_eq_zero_iff.mp (by rw [List.length_tail]; omega)
    simp only [Chunk.errors, htail, List.map_nil]
  · cases k <;> first | rfl | exact absurd rfl hk

theorem place_blanks {cs : List Char} (h : ∀ c ∈ cs, isBlank c) (p : Location) (rest : List Char) :
    Lexed.place p (chunks (cs ++ rest)) = Lexed.place (p.after cs) (chunks rest) := by
  induction cs generalizing p with
  | nil => rfl
  | cons c cs ih =>
    have hc : Chunk.extent c (cs ++ rest) = (.blank, 0) := by
      unfold Chunk.extent
      rw [if_pos (h c List.mem_cons_self)]
    rw [List.cons_append, Chunk.chunks_cons, hc]
    exact ih (fun d hd => h d (List.mem_cons_of_mem c hd)) (p.next c)

theorem Kind.Spells.ne_nil {k : Kind} {text : List Char} (h : k.Spells text) : text ≠ [] := by
  rintro rfl
  cases k
  case intLiteral => exact h.1 rfl
  case floatLiteral =>
    obtain ⟨whole, tail, h, -⟩ := h
    simp at h
  case stringLiteral =>
    obtain ⟨body, h, -⟩ := h
    cases h
  case identifier =>
    obtain ⟨c, tail, h, -⟩ := h
    cases h
  all_goals
    obtain ⟨s, hs, h⟩ := h
    cases hs
    cases h

theorem chunks_word {k : Kind} {text rest : List Char} (hk : k.Spells text)
    (hrest : ∀ c ∈ rest.head?, k.endsBefore c) :
    chunks (text ++ rest) = ⟨.token k, text⟩ :: chunks rest := by
  rcases text with _ | ⟨c, body⟩
  · exact absurd rfl hk.ne_nil
  · rw [List.cons_append, Chunk.chunks_cons, Chunk.extent_of_spells hk hrest, List.take_left,
      List.drop_left]

theorem place_word {k : Kind} {text : String} {rest : List Char} (hk : k.Writes text.toList)
    (hrest : ∀ c ∈ rest.head?, k.endsBefore c) (p : Location) :
    Lexed.place p (chunks (text.toList ++ rest)) =
      ⟨⟨k, p, p.after text.toList, text⟩ ::
        (Lexed.place (p.after text.toList) (chunks rest)).tokens,
        (Lexed.place (p.after text.toList) (chunks rest)).errors⟩ := by
  rw [chunks_word hk.spells hrest, Lexed.place, hk.errors_eq_nil, List.nil_append]
  simp only [Chunk.token?, Option.toList_some, List.singleton_append, String.ofList_toList]

/-- Separated pieces are read as their words, and what is behind them as if they were not there. -/
theorem place_separated {ps : List Piece} {next : List Char} (h : Separated ps next)
    (p : Location) : ∃ tokens, tokens.map Token.word = Piece.words ps ∧
      Lexed.place p (chunks (Piece.chars ps ++ next)) =
        ⟨tokens ++ (Lexed.place (p.after (Piece.chars ps)) (chunks next)).tokens,
          (Lexed.place (p.after (Piece.chars ps)) (chunks next)).errors⟩ := by
  induction ps generalizing p with
  | nil => exact ⟨[], rfl, rfl⟩
  | cons q ps ih =>
    cases q with
    | gap text =>
      obtain ⟨tokens, hwords, hplace⟩ := ih h.2 (p.after text.toList)
      refine ⟨tokens, hwords, ?_⟩
      change Lexed.place p (chunks (text.toList ++ Piece.chars ps ++ next)) = _
      rw [List.append_assoc, place_blanks h.1, hplace, ← Location.after_append]
      rfl
    | word k text =>
      obtain ⟨tokens, hwords, hplace⟩ := ih h.2.2 (p.after text.toList)
      refine ⟨⟨k, p, p.after text.toList, text⟩ :: tokens, by
        rw [List.map_cons, hwords]; rfl, ?_⟩
      change Lexed.place p (chunks (text.toList ++ Piece.chars ps ++ next)) = _
      rw [List.append_assoc, place_word h.1 h.2.1, hplace, ← Location.after_append]
      rfl

/-- A text of separated pieces has the words of the pieces as its tokens, and no errors. -/
theorem tokenize_separated {ps : List Piece} (h : Separated ps []) {source : String}
    (hsource : source.toList = Piece.chars ps) :
    (tokenize source).tokens.map Token.word = Piece.words ps ∧ (tokenize source).errors = [] := by
  obtain ⟨tokens, hwords, hplace⟩ := place_separated h Location.origin
  rw [List.append_nil, ← hsource] at hplace
  unfold tokenize
  rw [hplace]
  exact ⟨by simpa [Lexed.place] using hwords, rfl⟩

/-- Every token of a source is spelled as its kind is, and if the source has no errors, then with
at most one point. -/
theorem writes_of_mem_tokens {source : String} (h : (tokenize source).errors = []) {t : Token}
    (ht : t ∈ (tokenize source).tokens) : t.kind.Writes t.lexeme.toList := by
  unfold tokenize at h ht
  generalize Location.origin = p at h ht
  generalize source.toList = text at h ht
  induction text using Chunk.chunks_induction generalizing p with
  | nil => cases ht
  | cons c rest body next hcut ih =>
    rw [Chunk.chunks_of_cut hcut, Lexed.place] at h ht
    obtain ⟨hfirst, hlater⟩ := List.append_eq_nil_iff.mp h
    rcases List.mem_append.mp ht with ht | ht
    · have hfits := hcut.fits
      generalize (Chunk.extent c rest).1 = shape at hfits ht hfirst
      cases shape with
      | blank => cases ht
      | comment => cases ht
      | fault what => cases ht
      | token k =>
        obtain rfl := List.mem_singleton.mp ht
        have htext : (String.ofList (c :: body)).toList = c :: body := String.toList_ofList
        simp only [htext]
        refine ⟨hfits, ?_⟩
        rintro rfl
        have htail : (Chunk.points p (c :: body)).tail = [] := List.map_eq_nil_iff.mp hfirst
        have hlen := congrArg List.length htail
        rw [List.length_tail, length_points, List.length_nil] at hlen
        omega
    · exact ih _ hlater ht

end BraceLang
