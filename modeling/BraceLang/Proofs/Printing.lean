import BraceLang.Proofs.Formed

/-!
# Printed trees are separated

In the text of a tree that can be read, every word ends before the character behind it: words stand
before spaces, closing marks and newlines, or before the bracket of a call or an index.
-/

namespace BraceLang

open Piece

def closers : List Char :=
  [' ', ')', ']', ',', ';', '\n']

def Closes (next : List Char) : Prop :=
  ∃ c rest, next = c :: rest ∧ c ∈ closers

theorem Kind.endsBefore_of_mem_closers {c : Char} (h : c ∈ closers) (k : Kind) :
    k.endsBefore c := by
  simp only [closers, List.mem_cons, List.not_mem_nil, or_false] at h
  rcases h with rfl | rfl | rfl | rfl | rfl | rfl <;> cases k <;> decide

theorem Closes.endsBefore {next : List Char} (h : Closes next) (k : Kind) :
    ∀ c ∈ next.head?, k.endsBefore c := by
  obtain ⟨c, rest, rfl, hc⟩ := h
  rintro d ⟨⟩
  exact Kind.endsBefore_of_mem_closers hc k

theorem closes_newline (next : List Char) : Closes ('\n' :: next) :=
  ⟨'\n', next, rfl, by decide⟩

theorem closes_of_text {p : Piece} {c : Char} (hp : p.text.toList = [c]) (hc : c ∈ closers)
    (ps : List Piece) (next : List Char) : Closes (chars (p :: ps) ++ next) :=
  ⟨c, chars ps ++ next, by simp [chars, hp], hc⟩

theorem closes_space (ps : List Piece) (next : List Char) : Closes (chars (space :: ps) ++ next) :=
  closes_of_text (c := ' ') (by decide) (by decide) ps next

theorem Kind.writes_of_spelling? {k : Kind} {s : String} (h : k.spelling? = some s) :
    k.Writes s.toList :=
  ⟨spells_of_spelling? h, by rintro rfl; cases h⟩

namespace Separated

variable {ps : List Piece} {next : List Char}

theorem space (h : Separated ps next) : Separated (Piece.space :: ps) next :=
  ⟨List.all_eq_true.mp (by decide), h⟩

theorem mark {k : Kind} {s : String} (hk : k.spelling? = some s)
    (hnext : ∀ c ∈ (chars ps ++ next).head?, k.endsBefore c) (h : Separated ps next) :
    Separated (Piece.mark k :: ps) next := by
  have htext : Piece.mark k = .word k s := by rw [Piece.mark, hk, Option.getD_some]
  rw [htext]
  exact ⟨Kind.writes_of_spelling? hk, hnext, h⟩

/-- A mark that no character goes on with. -/
theorem bracket {k : Kind} {s : String} (hk : k.spelling? = some s)
    (hfree : ∀ c, k.endsBefore c) (h : Separated ps next) : Separated (Piece.mark k :: ps) next :=
  mark hk (fun c _ => hfree c) h

theorem token {k : Kind} {t : Token} (ht : t.Is k)
    (hnext : ∀ c ∈ (chars ps ++ next).head?, k.endsBefore c) (h : Separated ps next) :
    Separated (.word k t.lexeme :: ps) next :=
  ⟨ht.writes, hnext, h⟩

/-- Items before commas and before the end of their list. -/
theorem commas {items : List (List Piece)}
    (h : ∀ ps ∈ items, ∀ next, Closes next → Separated ps next) (hnext : Closes next) :
    Separated (Piece.commas items) next := by
  unfold Piece.commas
  induction items with
  | nil => trivial
  | cons ps items ih =>
    cases items with
    | nil =>
      rw [List.intercalate_singleton]
      exact h ps List.mem_cons_self next hnext
    | cons qs items =>
      have hlater := ih fun ps hps => h ps (List.mem_cons_of_mem _ hps)
      rw [List.intercalate_cons_cons, List.append_assoc]
      have hfirst := h ps List.mem_cons_self (chars ([Piece.mark .comma, Piece.space] ++
        [Piece.mark .comma, Piece.space].intercalate (qs :: items)) ++ next)
        (closes_of_text (c := ',') (by decide) (by decide) _ _)
      exact hfirst.append (bracket (k := .comma) rfl (fun _ => rfl) hlater.space)

end Separated

theorem unquote_quoted (body : List Char) :
    Grammar.Parser.unquote (String.ofList ('"' :: (body ++ ['"']))) = String.ofList body := by
  unfold Grammar.Parser.unquote
  rw [String.toList_ofList]
  simp

/-- The value of a string between quotes is the text that it was read from. -/
theorem quoted_unquote {s : String} (h : Kind.Spells .stringLiteral s.toList) :
    s!"\"{Grammar.Parser.unquote s}\"" = s := by
  obtain ⟨body, hs, -⟩ := h
  have hbody : Grammar.Parser.unquote s = String.ofList body := by
    rw [← String.ofList_toList (s := s), hs, unquote_quoted]
  rw [hbody, ← String.toList_inj, hs]
  simp [toString]

theorem Expr.Formed.separated {e : Expr} (h : e.Formed) :
    ∀ next, Closes next → Separated e.pieces next := by
  induction h with
  | int _ ht | float _ ht | var ht =>
    intro next hnext
    exact .token ht (hnext.endsBefore _) trivial
  | @string t ht =>
    intro next hnext
    simp only [Expr.pieces]
    rw [quoted_unquote ht.writes.spells]
    exact .token ht (hnext.endsBefore _) trivial
  | index ht _ ih =>
    intro next hnext
    simp only [Expr.pieces, List.cons_append, List.nil_append]
    refine .token ht (by rintro c ⟨⟩; decide) (.bracket rfl (fun _ => rfl) (.append (ih _ ?_) ?_))
    · exact closes_of_text (c := ']') (by decide) (by decide) _ _
    · exact .bracket rfl (fun _ => rfl) trivial
  | call ht _ ih =>
    intro next hnext
    simp only [Expr.pieces, List.cons_append, List.nil_append, Expr.eachPieces_eq_map]
    refine .token ht (by rintro c ⟨⟩; decide) (.bracket rfl (fun _ => rfl)
      (.append (.commas ?_ ?_) ?_))
    · intro ps hps
      obtain ⟨e, he, rfl⟩ := List.mem_map.mp hps
      exact ih e he
    · exact closes_of_text (c := ')') (by decide) (by decide) _ _
    · exact .bracket rfl (fun _ => rfl) trivial
  | @unary op t e ht _ ih =>
    intro next hnext
    simp only [Expr.pieces, List.cons_append, List.nil_append]
    refine .bracket rfl (fun _ => rfl) (.bracket op.spelling_kind ?_ (.append (ih _ ?_) ?_))
    · cases op <;> exact fun _ => rfl
    · exact closes_of_text (c := ')') (by decide) (by decide) _ _
    · exact .bracket rfl (fun _ => rfl) trivial
  | @binary op t l r ht _ _ ihl ihr =>
    intro next hnext
    simp only [Expr.pieces, List.cons_append, List.nil_append, List.append_assoc]
    refine .bracket rfl (fun _ => rfl) (.append (ihl _ (closes_space _ _)) (.space
      (.mark op.spelling_kind ((closes_space _ _).endsBefore _) (.space (.append (ihr _ ?_) ?_)))))
    · exact closes_of_text (c := ')') (by decide) (by decide) _ _
    · exact .bracket rfl (fun _ => rfl) trivial

namespace Line

/-- The words of the line are separated, the last one by the end of the line. -/
def Separated (l : Line) : Prop :=
  ∀ next, BraceLang.Separated l.pieces ('\n' :: next)

theorem separated_indented {lines : List Line} (h : ∀ l ∈ lines, l.Separated) :
    ∀ l ∈ indented lines, l.Separated := by
  intro l hl
  obtain ⟨m, hm, rfl⟩ := List.mem_map.mp hl
  exact h m hm

/-- A header may stand on a line of its own or before the first line of a block. -/
theorem separated_headed {header : List Piece}
    (hheader : ∀ next, Closes next → BraceLang.Separated header next) (isBlock : Bool)
    {body : List Line} (hbody : ∀ l ∈ body, l.Separated) :
    ∀ l ∈ headed header isBlock body, l.Separated := by
  unfold headed
  split
  · next first rest =>
    obtain ⟨hfirst, hrest⟩ := List.forall_mem_cons.mp hbody
    refine List.forall_mem_cons.mpr ⟨fun next => ?_, hrest⟩
    rw [List.append_assoc]
    exact (hheader _ (closes_space _ _)).append (hfirst next).space
  · exact List.forall_mem_cons.mpr
      ⟨fun next => hheader _ (closes_newline next), separated_indented hbody⟩

end Line

theorem separated_clause {keyword : Kind} {s : String} (hk : keyword.spelling? = some s)
    {condition : List Piece} (h : ∀ next, Closes next → Separated condition next) :
    ∀ next, Closes next → Separated (clause keyword condition) next := by
  intro next _
  simp only [clause, List.cons_append, List.nil_append]
  refine .mark hk ((closes_space _ _).endsBefore _) (.space (.bracket rfl (fun _ => rfl)
    (.append (h _ ?_) ?_)))
  · exact closes_of_text (c := ')') (by decide) (by decide) _ _
  · exact .bracket rfl (fun _ => rfl) trivial

theorem closes_semicolon (next : List Char) : Closes (chars [mark .semicolon] ++ next) :=
  closes_of_text (c := ';') (by decide) (by decide) [] next

/-- A lone mark that nothing goes on with is a line of its own. -/
theorem separated_ofPieces_mark {k : Kind} {s : String} (hk : k.spelling? = some s) :
    (Line.ofPieces [mark k]).Separated :=
  fun next => .mark hk ((closes_newline next).endsBefore k) trivial

theorem separated_semicolon (next : List Char) : Separated [mark .semicolon] ('\n' :: next) :=
  separated_ofPieces_mark rfl next

theorem Stmt.Formed.separated {s : Stmt} (h : s.Formed) : ∀ l ∈ s.lines, l.Separated := by
  induction h with
  | expr he =>
    refine List.forall_mem_singleton.mpr fun next => ?_
    exact (he.separated _ (closes_semicolon _)).append (separated_semicolon next)
  | @var a b i ha hb hi =>
    cases i with
    | none =>
      refine List.forall_mem_singleton.mpr fun next => ?_
      exact .token ha ((closes_space _ _).endsBefore _) (.space (.token hb
        ((closes_semicolon _).endsBefore _) (separated_semicolon next)))
    | some e =>
      refine List.forall_mem_singleton.mpr fun next => ?_
      exact .token ha ((closes_space _ _).endsBefore _) (.space (.token hb
        ((closes_space _ _).endsBefore _) (.space (.mark rfl ((closes_space _ _).endsBefore _)
          (.space (((hi e rfl).separated _ (closes_semicolon _)).append
            (separated_semicolon next)))))))
  | array ha hb _ hl =>
    refine List.forall_mem_singleton.mpr fun next => ?_
    exact .token ha ((closes_space _ _).endsBefore _) (.space (.token hb (by rintro c ⟨⟩; decide)
      (.bracket rfl (fun _ => rfl) (.token hl
        ((closes_of_text (c := ']') (by decide) (by decide) _ _).endsBefore _)
        (.bracket rfl (fun _ => rfl) (separated_semicolon next))))))
  | block _ ih =>
    rw [Stmt.lines, Stmt.eachLines_eq_flatMap]
    refine List.forall_mem_append.mpr ⟨List.forall_mem_append.mpr ⟨?_, ?_⟩, ?_⟩
    · exact List.forall_mem_singleton.mpr (separated_ofPieces_mark rfl)
    · refine Line.separated_indented fun l hl => ?_
      obtain ⟨s, hs, hl⟩ := List.mem_flatMap.mp hl
      exact ih s hs l hl
    · exact List.forall_mem_singleton.mpr (separated_ofPieces_mark rfl)
  | loop he _ ih | ifThen he _ ih =>
    exact Line.separated_headed (separated_clause rfl he.separated) _ ih
  | ifElse he _ _ _ ih ih' =>
    have helse : ∀ next, Closes next → Separated [mark .reservedElse] next :=
      fun next hnext => .mark rfl (hnext.endsBefore _) trivial
    refine List.forall_mem_append.mpr
      ⟨Line.separated_headed (separated_clause rfl he.separated) _ ih, ?_⟩
    exact Line.separated_headed helse _ ih'
  | @result k v _ hv =>
    cases v with
    | none =>
      refine List.forall_mem_singleton.mpr fun next => ?_
      exact .mark rfl ((closes_semicolon _).endsBefore _) (separated_semicolon next)
    | some e =>
      refine List.forall_mem_singleton.mpr fun next => ?_
      exact .mark rfl ((closes_space _ _).endsBefore _) (.space
        (((hv e rfl).separated _ (closes_semicolon _)).append (separated_semicolon next)))
  | empty => exact List.forall_mem_singleton.mpr separated_semicolon

theorem Param.Formed.separated {p : Param} (h : p.Formed) :
    ∀ next, Closes next → Separated p.pieces next := fun _ hnext =>
  .token h.type ((closes_space _ _).endsBefore _) (.space (.token h.name (hnext.endsBefore _)
    trivial))

theorem Function.Formed.separated {f : Function} (h : f.Formed) : ∀ l ∈ f.lines, l.Separated := by
  unfold Function.lines
  rw [Stmt.eachLines_eq_flatMap]
  refine List.forall_mem_append.mpr ⟨List.forall_mem_append.mpr ⟨?_, ?_⟩, ?_⟩
  · refine List.forall_mem_singleton.mpr fun next => ?_
    change Separated ([ident f.returnType, space, ident f.name, mark .leftParen] ++
      commas (f.params.map Param.pieces) ++ [mark .rightParen, space, mark .leftBrace]) _
    simp only [List.cons_append, List.nil_append]
    refine .token h.returnType ((closes_space _ _).endsBefore _) (.space (.token h.name
      (by rintro c ⟨⟩; decide) (.bracket rfl (fun _ => rfl) (.append (.commas ?_ ?_) ?_))))
    · intro ps hps
      obtain ⟨p, hp, rfl⟩ := List.mem_map.mp hps
      exact (h.params p hp).separated
    · exact closes_of_text (c := ')') (by decide) (by decide) _ _
    · exact .bracket rfl (fun _ => rfl) (.space (.bracket rfl (fun _ => rfl) trivial))
  · refine Line.separated_indented fun l hl => ?_
    obtain ⟨s, hs, hl⟩ := List.mem_flatMap.mp hl
    exact (h.body s hs).separated l hl
  · exact List.forall_mem_singleton.mpr (separated_ofPieces_mark rfl)

def Line.allPieces (l : Line) : List Piece :=
  .gap (String.ofList (List.replicate (4 * l.depth) ' ')) :: (l.pieces ++ [.gap "\n"])

theorem Line.separated_allPieces {lines : List Line} (h : ∀ l ∈ lines, l.Separated) :
    BraceLang.Separated (lines.flatMap allPieces) [] := by
  induction lines with
  | nil => trivial
  | cons l lines ih =>
    obtain ⟨hl, hlines⟩ := List.forall_mem_cons.mp h
    have hend : BraceLang.Separated [.gap "\n"] (chars (lines.flatMap allPieces) ++ []) :=
      ⟨List.all_eq_true.mp (by decide), trivial⟩
    refine BraceLang.Separated.append ⟨?_, (hl _).append hend⟩ (ih hlines)
    intro c hc
    rw [String.toList_ofList] at hc
    rw [List.eq_of_mem_replicate hc]
    decide

theorem Line.toList_textOf (lines : List Line) :
    (Line.textOf lines).toList = chars (lines.flatMap allPieces) := by
  unfold Line.textOf chars
  rw [String.toList_join, List.flatMap_map, List.flatMap_assoc]
  refine congrArg (fun g => lines.flatMap g) (funext fun l => ?_)
  simp [Line.text, allPieces, Piece.textOf, Piece.text, List.flatMap_map]

def Line.joined (lines : List Line) : List Piece :=
  lines.flatMap Line.pieces

theorem Line.words_allPieces (l : Line) : words l.allPieces = words l.pieces := by
  simp [allPieces, words]

theorem Line.words_joined (lines : List Line) :
    words (joined lines) = words (lines.flatMap allPieces) := by
  induction lines with
  | nil => rfl
  | cons l lines ih =>
    rw [joined, List.flatMap_cons, List.flatMap_cons, words_append, words_append, words_allPieces,
      ← ih, joined]

theorem Program.Formed.separated {p : Program} (h : p.Formed) : ∀ l ∈ p.lines, l.Separated := by
  have hlines : ∀ lines ∈ p.functions.map Function.lines, ∀ l ∈ lines, l.Separated := by
    intro lines hlines
    obtain ⟨f, hf, rfl⟩ := List.mem_map.mp hlines
    exact (h f hf).separated
  unfold Program.lines
  generalize p.functions.map Function.lines = groups at hlines
  induction groups with
  | nil => simp
  | cons lines groups ih =>
    obtain ⟨hfirst, hlater⟩ := List.forall_mem_cons.mp hlines
    cases groups with
    | nil => simpa using hfirst
    | cons lines' groups =>
      rw [List.intercalate_cons_cons]
      refine List.forall_mem_append.mpr ⟨List.forall_mem_append.mpr ⟨hfirst, ?_⟩, ih hlater⟩
      exact List.forall_mem_singleton.mpr fun _ => trivial

/-- The text of a tree that can be read has just its words as tokens, and no errors. -/
theorem Program.Formed.tokenize_text {p : Program} (h : p.Formed) :
    (tokenize p.text).tokens.map Token.word = words (Line.joined p.lines) ∧
      (tokenize p.text).errors = [] := by
  rw [Line.words_joined]
  exact tokenize_separated (Line.separated_allPieces h.separated) (Line.toList_textOf p.lines)

end BraceLang
