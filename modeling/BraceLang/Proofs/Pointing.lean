import BraceLang.Compile
import BraceLang.Proofs.SourceLines
import BraceLang.Proofs.Words
import BraceLang.Proofs.Recognition
import BraceLang.Proofs.Relocation

/-!
# Diagnostics are shown with their lines

A source that is not accepted has diagnostics. Each is shown as one line of text, the line of the
source that it is about, and a caret under a character of that line: the one that a lexical error is
about, or the first of the token that a syntax error points at. An error at the end of the input has
no token; its caret stands behind the last character of the last token, wherever the source ends.
-/

namespace BraceLang

theorem Kind.Spells.getLast?_ne {k : Kind} {text : List Char} (h : k.Spells text) :
    text.getLast? ≠ some '\r' := by
  intro hlast
  by_cases hk : k = .stringLiteral
  · subst hk
    obtain ⟨body, rfl, -⟩ := h
    rw [← List.cons_append, List.getLast?_concat] at hlast
    cases hlast
  · exact h.not_isBlank hk (List.mem_of_getLast? hlast) rfl

def Fault.character : Fault → Char
  | strayBang => '!'
  | unterminatedString => '"'
  | invalidCharacter c => c
  | extraPoint => '.'

/-- A faulty chunk starts with the character that it is about. -/
theorem Shape.Fits.fault {what : Fault} {text next : List Char}
    (h : (Shape.fault what).Fits text next) :
    ∃ body, text = what.character :: body ∧ what.character ∉ ['\n', '\r'] := by
  cases what with
  | strayBang => exact ⟨[], h.1, by decide⟩
  | unterminatedString =>
    obtain ⟨⟨body, htext, -⟩, -⟩ := h
    exact ⟨body, htext, by decide⟩
  | invalidCharacter c =>
    refine ⟨[], h.1, fun hc => h.2 (.inl ?_)⟩
    rcases List.mem_cons.mp hc with hc | hc
    · rw [show c = '\n' from hc]
      decide
    · rw [show c = '\r' from List.mem_singleton.mp hc]
      decide
  | extraPoint => exact h.elim

theorem Stretch.drop_start {source : List Char} {p : Stretch} (hp : p.Fits source) :
    source.drop p.start = p.text source ++ source.drop p.stop := by
  have hsplit := List.take_append_drop (p.stop - p.start) (source.drop p.start)
  rw [List.drop_drop, Nat.add_sub_cancel' (Nat.le_of_lt hp.nonempty)] at hsplit
  exact hsplit.symm

theorem Stretch.length_text {source : List Char} {p : Stretch} (hp : p.Fits source) :
    (p.text source).length = p.stop - p.start := by
  have hinside := hp.inside
  rw [Stretch.text, List.length_take, List.length_drop]
  omega

theorem describes_source (source : String) :
    Describes source.toList 0 (chunks source.toList) :=
  describes_chunks (Nat.zero_le _) List.drop_zero

theorem mem_tokens_iff {source : String} {t : Token} : t ∈ (tokenize source).tokens ↔
    ∃ p ∈ stretches source.toList 0 (chunks source.toList), p.content = .token t := by
  have htokens : (tokenize source).tokens = _ := (describes_source source).tokens
  have hcontent (p : Stretch) : p.token? = some t ↔ p.content = .token t := by
    rcases p with ⟨content, start, stop⟩
    cases content <;> simp [Stretch.token?]
  simp only [htokens, List.mem_filterMap, hcontent]

theorem exists_stretch_of_mem_tokens {source : String} {t : Token}
    (ht : t ∈ (tokenize source).tokens) :
    ∃ p : Stretch, p.Fits source.toList ∧ p.content = .token t := by
  obtain ⟨p, hp, hcontent⟩ := mem_tokens_iff.1 ht
  exact ⟨p, (describes_source source).fits p hp, hcontent⟩

theorem exists_stretch_of_mem_errors {source : String} {e : LexicalError}
    (he : e ∈ (tokenize source).errors) : ∃ p : Stretch, p.Fits source.toList ∧
      ∃ f ∈ p.faults source.toList, e = ⟨f.1, placeAt source.toList f.2⟩ := by
  have herrors : (tokenize source).errors = _ := (describes_source source).errors
  rw [herrors] at he
  obtain ⟨f, hf, rfl⟩ := List.mem_map.mp he
  obtain ⟨p, hp, hf⟩ := List.mem_flatMap.mp hf
  exact ⟨p, (describes_source source).fits p hp, f, hf, rfl⟩

/-- A token of a source stands where it says. -/
theorem exists_drop_of_mem_tokens {source : String} {t : Token}
    (ht : t ∈ (tokenize source).tokens) : ∃ i next,
      source.toList.drop i = t.lexeme.toList ++ next ∧ t.kind.Spells t.lexeme.toList ∧
        t.start = placeAt source.toList i ∧ t.stop = t.start.after t.lexeme.toList := by
  obtain ⟨p, hfits, hcontent⟩ := exists_stretch_of_mem_tokens ht
  obtain ⟨hlexeme, hstart, hstop, -⟩ := hfits.token t hcontent
  have hdrop := Stretch.drop_start hfits
  have hlen : p.start + (p.text source.toList).length = p.stop := by
    rw [Stretch.length_text hfits, Nat.add_sub_cancel' (Nat.le_of_lt hfits.nonempty)]
  have hshape := hfits.shape
  rw [hcontent] at hshape
  rw [hlexeme]
  refine ⟨p.start, _, hdrop, hshape, hstart, ?_⟩
  rw [hstart, hstop, ← placeAt_add hdrop, hlen]

/-- The character that an error is about stands where the error says. -/
theorem exists_drop_of_mem_errors {source : String} {e : LexicalError}
    (he : e ∈ (tokenize source).errors) : ∃ i next,
      source.toList.drop i = [e.fault.character] ++ next ∧
        e.fault.character ∉ ['\n', '\r'] ∧ e.location = placeAt source.toList i := by
  obtain ⟨p, hfits, ⟨what, i⟩, hf, rfl⟩ := exists_stretch_of_mem_errors he
  have hshape := hfits.shape
  -- either a further point of a number or the first character of a stretch that is no token
  rcases hcontent : p.content with t | _ | _ | what' <;>
    simp only [Stretch.faults, hcontent] at hf
  · split at hf
    · obtain ⟨k, hk, heq⟩ := List.mem_map.mp hf
      obtain ⟨rfl, rfl⟩ := Prod.mk.inj heq
      have hpoint := (List.mem_filter.mp (List.mem_of_mem_tail hk)).2
      obtain ⟨hlt, hc⟩ := List.getElem?_eq_some_iff.mp (of_decide_eq_true hpoint)
      have hne : Fault.extraPoint.character ∉ ['\n', '\r'] := by decide
      refine ⟨k, source.toList.drop (k + 1), ?_, hne, rfl⟩
      rw [List.drop_eq_getElem_cons hlt, hc]
      rfl
    · cases hf
  · cases hf
  · cases hf
  · obtain ⟨rfl, rfl⟩ := Prod.mk.inj (List.mem_singleton.mp hf)
    rw [hcontent] at hshape
    obtain ⟨body, htext, hc⟩ := hshape.fault
    refine ⟨p.start, body ++ source.toList.drop p.stop, ?_, hc, rfl⟩
    rw [Stretch.drop_start hfits, htext]
    rfl

def OneLine (s : String) : Prop :=
  '\n' ∉ s.toList

instance (s : String) : Decidable (OneLine s) :=
  inferInstanceAs (Decidable ('\n' ∉ s.toList))

theorem OneLine.append {s t : String} (hs : OneLine s) (ht : OneLine t) : OneLine (s ++ t) := by
  unfold OneLine at *
  rw [String.toList_append, List.mem_append]
  exact not_or.mpr ⟨hs, ht⟩

theorem oneLine_nat (n : Nat) : OneLine (toString n) :=
  fun h => absurd (Location.isDigit_of_mem_toString h) (by decide)

theorem oneLine_char {c : Char} (h : c ≠ '\n') : OneLine (toString c) := by
  intro hmem
  have hc : (toString c).toList = [c] := String.toList_singleton c
  rw [hc] at hmem
  exact h (List.mem_singleton.mp hmem).symm

theorem Kind.oneLine_label (k : Kind) : OneLine k.label := by
  cases k <;> decide

theorem Kind.oneLine_spelling (k : Kind) : OneLine (k.spelling?.getD "") := by
  cases k <;> decide

theorem Grammar.Place.oneLine_text (p : Grammar.Place) : OneLine p.text := by
  cases p <;> decide

theorem Fault.oneLine_message {what : Fault} (h : what.character ≠ '\n') :
    OneLine what.message := by
  have hlit : OneLine "Invalid character '" ∧ OneLine "'" := by decide
  cases what with
  | invalidCharacter c => exact (hlit.1.append (oneLine_char h)).append hlit.2
  | strayBang => decide
  | unterminatedString => decide
  | extraPoint => decide

theorem Grammar.Failure.Quotes.oneLine_message {e : Grammar.Failure} (h : e.Quotes)
    (ht : ∀ t, e.token = some t → OneLine t.lexeme) : OneLine e.cause.message := by
  have hquote : OneLine "'" := by decide
  rcases e with ⟨cause, token⟩
  cases cause with
  | endOfInput => exact (by decide : OneLine Grammar.Cause.endOfInput.message)
  | tooDeep nest =>
    have hnest : ∀ n, OneLine (Grammar.Cause.tooDeep n).message := by
      intro n
      cases n <;> decide
    exact hnest nest
  | mismatch expected actual =>
    have hlit : OneLine "Expected token type '" ∧ OneLine "', but got '" := by decide
    exact (((hlit.1.append expected.oneLine_label).append hlit.2).append
      actual.oneLine_label).append hquote
  | missing expected place =>
    have hlit : OneLine "Expected '" ∧ OneLine "' after " := by decide
    exact ((hlit.1.append expected.oneLine_spelling).append hlit.2).append place.oneLine_text
  | noAtom kind =>
    have hlit : OneLine "Unexpected token type '" ∧ OneLine "' for atom" := by decide
    exact (hlit.1.append kind.oneLine_label).append hlit.2
  | integerRange lexeme =>
    have hlit : OneLine "Integer literal '" ∧ OneLine "' is out of range" := by decide
    obtain ⟨t, htoken, rfl⟩ := Option.map_eq_some_iff.mp h
    exact (hlit.1.append (ht t htoken)).append hlit.2
  | malformedFloat lexeme =>
    have hlit : OneLine "Malformed float literal '" := by decide
    obtain ⟨t, htoken, rfl⟩ := Option.map_eq_some_iff.mp h
    exact (hlit.append (ht t htoken)).append hquote
  | trailing t =>
    have hlit : OneLine "Unexpected trailing token " ∧ OneLine " after expression" ∧
        OneLine " '" := by decide
    have htext : OneLine t.text :=
      ((t.kind.oneLine_label.append hlit.2.2).append (ht t h)).append hquote
    exact (hlit.1.append htext).append hlit.2.1
  | other message => exact h.elim

theorem Diagnostic.oneLine_gutter (d : Diagnostic) : OneLine d.gutter := by
  have hspaces : OneLine (String.ofList
      (List.replicate (4 - (toString d.location.line).length) ' ')) := by
    unfold OneLine
    rw [String.toList_ofList]
    exact fun h => absurd (List.eq_of_mem_replicate h) (by decide)
  exact (hspaces.append (oneLine_nat _)).append (by decide)

theorem Diagnostic.oneLine_text {d : Diagnostic} (h : OneLine d.message) : OneLine d.text := by
  have hstage : OneLine d.stage.label := by cases d.stage <;> decide
  have hlit : OneLine ": error: " ∧ OneLine ": " ∧ OneLine ":" := by decide
  have hlocation : OneLine d.location.text :=
    ((oneLine_nat d.location.line).append hlit.2.2).append (oneLine_nat d.location.column)
  exact (((hstage.append hlit.1).append hlocation).append hlit.2.1).append h

namespace Diagnostic

/-- The diagnostic is shown in three lines: what it says, the line of the source that it is about,
and a caret under the column that it is about. -/
structure Echoes (source : String) (d : Diagnostic) (row : List Char) : Prop where
  line_pos : 1 ≤ d.location.line
  line_eq : (sourceLines source.toList)[d.location.line - 1]? = some row
  column_pos : 1 ≤ d.location.column
  column_le : d.location.column - 1 ≤ row.length
  shown : displayAll .plain (some source) [d] =
    d.text ++ "\n" ++
    (d.gutter ++ String.ofList row) ++ "\n" ++
    (String.ofList (List.replicate (d.gutter.length + (d.location.column - 1)) ' ') ++ "^") ++ "\n"
  unbroken_text : OneLine d.text
  unbroken_line : OneLine (d.gutter ++ String.ofList row)

theorem caret_plain {d : Diagnostic} {row : List Char}
    (h : d.location.column - 1 ≤ row.length) : d.caret .plain row =
      String.ofList (List.replicate (d.gutter.length + (d.location.column - 1)) ' ') ++ "^" := by
  simp [caret, Style.plain, Nat.min_eq_left h]

theorem displayAll_plain {source : String} {d : Diagnostic} {row : List Char}
    (hline : (sourceLines source.toList)[d.location.line - 1]? = some row)
    (hcolumn : d.location.column - 1 ≤ row.length) : displayAll .plain (some source) [d] =
      d.text ++ "\n" ++ (d.gutter ++ String.ofList row) ++ "\n" ++
      (String.ofList (List.replicate (d.gutter.length + (d.location.column - 1)) ' ') ++ "^") ++
      "\n" := by
  have hlines : displayLines .plain (some source) d =
      [d.text, d.gutter ++ String.ofList row, d.caret .plain row] := by
    rw [displayLines_plain, Option.bind_some, sourceLine?, hline]
  simp only [displayAll, List.flatMap_cons, List.flatMap_nil, List.append_nil, hlines,
    List.map_cons, List.map_nil, caret_plain hcolumn, String.append_assoc, String.join,
    List.foldl_cons, List.foldl_nil, String.empty_append]

theorem Echoes.of_line {source : String} {d : Diagnostic} {row : List Char}
    (hline : (sourceLines source.toList)[d.location.line - 1]? = some row)
    (hpos : 1 ≤ d.location.line ∧ 1 ≤ d.location.column)
    (hcolumn : d.location.column - 1 ≤ row.length) (hmessage : OneLine d.message) :
    Echoes source d row where
  line_pos := hpos.1
  line_eq := hline
  column_pos := hpos.2
  column_le := hcolumn
  shown := displayAll_plain hline hcolumn
  unbroken_text := oneLine_text hmessage
  unbroken_line := by
    apply OneLine.append d.oneLine_gutter
    rw [OneLine, String.toList_ofList]
    exact notMem_of_mem_sourceLines (List.mem_of_getElem? hline)

end Diagnostic

/-- What stands at the caret: the character that a lexical error is about or the first one of the
token of a syntax error. An error without a token points just behind the last token. -/
def CompileError.PointsAt (source : String) (e : CompileError) (d : Diagnostic)
    (row : List Char) : Prop :=
  match e with
  | .lexical _ => ∃ err ∈ (tokenize source).errors, d = err.diagnostic ∧
      row[d.location.column - 1]? = some err.fault.character
  | .syntactic err => d = err.diagnostic ∧
      match err.token with
      | some t => t ∈ (tokenize source).tokens ∧ d.location = t.start ∧
          ∃ c, t.lexeme.toList.head? = some c ∧ row[d.location.column - 1]? = some c
      | none => ∃ t, (tokenize source).tokens.getLast? = some t ∧ d.location = t.stop ∧
          2 ≤ d.location.column ∧
            ∃ c, t.lexeme.toList.getLast? = some c ∧ row[d.location.column - 2]? = some c
  | .system _ => False

theorem placeAt_pos (source : List Char) (k : Nat) :
    1 ≤ (placeAt source k).line ∧ 1 ≤ (placeAt source k).column :=
  ⟨Nat.le_add_right 1 _, Nat.le_add_right 1 _⟩

theorem LexicalError.echoes {source : String} {e : LexicalError}
    (he : e ∈ (tokenize source).errors) : ∃ row, e.diagnostic.Echoes source row ∧
      row[e.location.column - 1]? = some e.fault.character := by
  obtain ⟨i, next, hdrop, hc, hplace⟩ := exists_drop_of_mem_errors he
  have hnewline : e.fault.character ≠ '\n' := fun h => hc (by simp [h])
  have hreturn : e.fault.character ≠ '\r' := fun h => hc (by simp [h])
  obtain ⟨before, after, hline, hcolumn⟩ := sourceLine_of_drop hdrop (List.cons_ne_nil _ _)
    (by simpa using hnewline.symm) (by simpa using hreturn)
  rw [← hplace] at hline hcolumn
  refine ⟨_, .of_line hline ?_ ?_ (Fault.oneLine_message hnewline), ?_⟩
  · change 1 ≤ e.location.line ∧ 1 ≤ e.location.column
    rw [hplace]
    exact placeAt_pos _ _
  · change e.location.column - 1 ≤ _
    simp [hcolumn]
  · simp [hcolumn]

theorem getElem?_append_last (before after : List Char) {text : List Char} (h : text ≠ []) :
    (before ++ (text ++ after))[before.length + text.length - 1]? = text.getLast? := by
  have hlen := List.length_pos_iff.mpr h
  rw [List.getElem?_append_right (by omega), List.getElem?_append_left (by omega),
    List.getLast?_eq_getElem?]
  congr 1
  omega

structure Token.OnLine (source : String) (t : Token) (row : List Char) : Prop where
  line_eq : (sourceLines source.toList)[t.start.line - 1]? = some row
  start_pos : 1 ≤ t.start.line ∧ 1 ≤ t.start.column
  stop_line : t.stop.line = t.start.line
  first : ∃ c, t.lexeme.toList.head? = some c ∧ row[t.start.column - 1]? = some c
  last : 2 ≤ t.stop.column ∧
    ∃ c, t.lexeme.toList.getLast? = some c ∧ row[t.stop.column - 2]? = some c
  unbroken : OneLine t.lexeme

theorem exists_onLine_of_mem_tokens {source : String} {t : Token}
    (ht : t ∈ (tokenize source).tokens) : ∃ row, t.OnLine source row := by
  obtain ⟨i, next, hdrop, hspells, hstart, hstop⟩ := exists_drop_of_mem_tokens ht
  have hne := hspells.ne_nil
  obtain ⟨before, after, hline, hcolumn⟩ := sourceLine_of_drop hdrop hne hspells.notMem_newline
    hspells.getLast?_ne
  rw [← hstart] at hline hcolumn
  rw [Location.after_of_notMem _ hspells.notMem_newline] at hstop
  have hlen := List.length_pos_iff.mpr hne
  have hstopColumn : t.stop.column = t.start.column + t.lexeme.toList.length := by rw [hstop]
  refine ⟨before ++ (t.lexeme.toList ++ after), hline, ?_, by rw [hstop], ?_, ⟨by omega, ?_⟩,
    hspells.notMem_newline⟩
  · rw [hstart]
    exact placeAt_pos _ _
  · obtain ⟨c, rest, hlexeme⟩ := List.exists_cons_of_ne_nil hne
    exact ⟨c, by rw [hlexeme]; rfl, by simp [hcolumn, hlexeme]⟩
  · have hlast := List.getLast?_eq_some_getLast hne
    refine ⟨_, hlast, ?_⟩
    rw [← hlast, ← getElem?_append_last before after hne]
    congr 1
    omega

namespace Token.OnLine

variable {source : String} {t : Token} {row : List Char} {d : Diagnostic}

theorem echoes_start (h : t.OnLine source row) (hd : d.location = t.start)
    (hmessage : OneLine d.message) : d.Echoes source row := by
  obtain ⟨c, -, hc⟩ := h.first
  have hlt := (List.getElem?_eq_some_iff.mp hc).1
  apply Diagnostic.Echoes.of_line
  · rw [hd]
    exact h.line_eq
  · rw [hd]
    exact h.start_pos
  · rw [hd]
    exact Nat.le_of_lt hlt
  · exact hmessage

theorem echoes_stop (h : t.OnLine source row) (hd : d.location = t.stop)
    (hmessage : OneLine d.message) : d.Echoes source row := by
  obtain ⟨hpos, c, -, hc⟩ := h.last
  have hlt := (List.getElem?_eq_some_iff.mp hc).1
  apply Diagnostic.Echoes.of_line
  · rw [hd, h.stop_line]
    exact h.line_eq
  · rw [hd, h.stop_line]
    exact ⟨h.start_pos.1, by omega⟩
  · rw [hd]
    omega
  · exact hmessage

end Token.OnLine

section Syntax

open Grammar

/-- A syntax error stands where its token starts or where the last token stops. -/
theorem parseProgram_error_cases {source : String} {e : SyntaxError}
    (h : parseProgram (tokenize source).tokens = .error e) : OneLine e.message ∧
      ((∃ t ∈ (tokenize source).tokens, e.token = some t ∧ e.location = t.start) ∨
        ∃ t, (tokenize source).tokens.getLast? = some t ∧ e.token = none ∧
          e.location = t.stop) := by
  obtain ⟨failure, hrun, rfl⟩ := run_of_answer_error h
  have hmem : ∀ t, failure.token = some t → t ∈ (tokenize source).tokens := fun t ht =>
    mem_of_failure (fun f hf => ⟨_, moves_programParser hf maxNesting⟩) hrun ht
  have hquotes : failure.Quotes :=
    (moves_programParser (f := id) ⟨fun _ => rfl, fun _ => rfl⟩ maxNesting).quotes hrun
  refine ⟨hquotes.oneLine_message fun t ht => ?_, ?_⟩
  · obtain ⟨row, hline⟩ := exists_onLine_of_mem_tokens (hmem t ht)
    exact hline.unbroken
  · cases htoken : failure.token with
    | some t => exact .inl ⟨t, hmem t htoken, htoken, by simp [Failure.within, htoken]⟩
    | none =>
      rcases hlast : (tokenize source).tokens.getLast? with _ | last
      · rw [List.getLast?_eq_none_iff.mp hlast] at h
        cases h
      · exact .inr ⟨last, rfl, htoken, by simp [Failure.within, htoken, endLocation, hlast]⟩

theorem SyntaxError.echoes {source : String} {e : SyntaxError}
    (h : parseProgram (tokenize source).tokens = .error e) : ∃ row,
      e.diagnostic.Echoes source row ∧
        (CompileError.syntactic e).PointsAt source e.diagnostic row := by
  obtain ⟨hmessage, ⟨t, ht, htoken, hlocation⟩ | ⟨t, hlast, htoken, hlocation⟩⟩ :=
    parseProgram_error_cases h
  · obtain ⟨row, hline⟩ := exists_onLine_of_mem_tokens ht
    refine ⟨row, hline.echoes_start hlocation hmessage, ?_⟩
    have hd : e.diagnostic.location = t.start := hlocation
    simp only [CompileError.PointsAt, htoken, hd]
    exact ⟨trivial, ht, trivial, hline.first⟩
  · obtain ⟨row, hline⟩ := exists_onLine_of_mem_tokens (List.mem_of_getLast? hlast)
    refine ⟨row, hline.echoes_stop hlocation hmessage, ?_⟩
    have hd : e.diagnostic.location = t.stop := hlocation
    simp only [CompileError.PointsAt, htoken, hd]
    exact ⟨trivial, t, hlast, rfl, hline.last⟩

/-- Every diagnostic of a source that is not accepted is shown with its line, and with a caret under
what it is about. -/
theorem compile_error_echoes {source : String} {e : CompileError}
    (h : compile source = .error e) : ∀ d ∈ e.diagnostics, ∃ row,
      d.Echoes source row ∧ e.PointsAt source d row := by
  intro d hd
  cases e with
  | lexical ds =>
    obtain ⟨-, rfl⟩ := compile_lexical_iff.mp h
    obtain ⟨err, herr, rfl⟩ := List.mem_map.mp hd
    obtain ⟨row, hline, hc⟩ := LexicalError.echoes herr
    exact ⟨row, hline, err, herr, rfl, hc⟩
  | syntactic err =>
    obtain rfl := List.mem_singleton.mp hd
    exact SyntaxError.echoes (compile_syntactic_iff.mp h).2
  | system text => cases hd

end Syntax

/-- A character that is not accepted behind a line break of two characters, and a list of parameters
that ends with a comment. -/
theorem compile_error_echoes_of_breaks :
    (∃ e row, compile "f g()\r\n\x7b @" = .error e ∧
      Diagnostic.Echoes "f g()\r\n\x7b @" ⟨.lexer, ⟨2, 3⟩, "Invalid character '@'"⟩ row ∧
      e.PointsAt "f g()\r\n\x7b @" ⟨.lexer, ⟨2, 3⟩, "Invalid character '@'"⟩ row) ∧
    ∃ e row, compile "f g(a b // c\r\n" = .error e ∧
      Diagnostic.Echoes "f g(a b // c\r\n"
        ⟨.parser, ⟨1, 8⟩, "Cannot peek beyond end of input"⟩ row ∧
      e.PointsAt "f g(a b // c\r\n" ⟨.parser, ⟨1, 8⟩, "Cannot peek beyond end of input"⟩ row := by
  constructor
  · have h : compile "f g()\r\n\x7b @" =
        .error (.lexical [⟨.lexer, ⟨2, 3⟩, "Invalid character '@'"⟩]) :=
      compile_of_compileError? (by decide +kernel)
    obtain ⟨row, hline⟩ := compile_error_echoes h _ List.mem_cons_self
    exact ⟨_, row, h, hline⟩
  · have h : compile "f g(a b // c\r\n" =
        .error (.syntactic ⟨.endOfInput, ⟨1, 8⟩, none⟩) :=
      compile_of_compileError? (by decide +kernel)
    obtain ⟨row, hline⟩ := compile_error_echoes h _ List.mem_cons_self
    exact ⟨_, row, h, hline⟩

end BraceLang
