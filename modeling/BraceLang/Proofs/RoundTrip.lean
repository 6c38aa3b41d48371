import BraceLang.Compile
import BraceLang.Proofs.Recognition
import BraceLang.Proofs.Rereading

/-!
# A printed program is read again

The text of a program that was read from a source is read as the same program, up to the places of
its tokens, as long as no statement needs more than the levels of nesting that there are. Otherwise
it is refused as nested too deeply: parentheses around each operator can need more levels than the
source did. Whether it can be read or not, the words of the text belong to that program alone.
-/

namespace BraceLang

open Grammar Piece

namespace Line

theorem joined_cons (l : Line) (lines : List Line) :
    joined (l :: lines) = l.pieces ++ joined lines :=
  List.flatMap_cons

theorem joined_append (lines lines' : List Line) :
    joined (lines ++ lines') = joined lines ++ joined lines' :=
  List.flatMap_append

theorem joined_ofPieces (ps : List Piece) : joined [ofPieces ps] = ps :=
  List.flatMap_singleton ..

theorem joined_indented (lines : List Line) : joined (indented lines) = joined lines := by
  unfold joined indented
  rw [List.flatMap_map]

theorem words_headed (header : List Piece) (isBlock : Bool) (body : List Line) :
    words (joined (headed header isBlock body)) = words (header ++ joined body) := by
  unfold headed
  split
  · next first rest =>
    rw [joined_cons, joined_cons]
    simp [words, Piece.space]
  · rw [joined_cons, joined_indented]
    rfl

end Line

namespace Carries

variable {ts : List Token}

/-- A header is read before its body, whichever line the body starts on. -/
theorem headed {header : List Piece} {isBlock : Bool} {body : List Line}
    (h : Carries ts (Line.joined (Line.headed header isBlock body))) :
    ∃ us vs, ts = us ++ vs ∧ Carries us header ∧ Carries vs (Line.joined body) := by
  unfold Carries at h
  rw [Line.words_headed] at h
  exact Carries.append h

/-- A reserved word with its condition. -/
theorem clause {k : Kind} {condition : List Piece} (h : Carries ts (clause k condition)) :
    ∃ w o us c, ts = w :: o :: (us ++ [c]) ∧ w.kind = k ∧ o.kind = .leftParen ∧
      Carries us condition ∧ c.kind = .rightParen := by
  obtain ⟨us, c, rfl, hus, hc⟩ := h.last
  simp only [List.cons_append, List.nil_append] at hus
  obtain ⟨w, us, rfl, hw, hus⟩ := hus.mark
  obtain ⟨o, us, rfl, ho, hin⟩ := hus.space.mark
  exact ⟨w, o, us, c, rfl, hw, ho, hin, hc⟩

end Carries

theorem Grammar.Derives.stmt_of_form {o : Bool} {s : Stmt} {d : Nat} {ts : List Token}
    (h : Derives (.form o s) d ts) : Derives (.stmt o s) (1 + d) ts :=
  Nat.add_comm d 1 ▸ h.stmt

def Stmt.Rereads (s : Stmt) : Prop :=
  ∀ ts, Carries ts (Line.joined s.lines) → ∃ s' : Stmt, s'.unplaced = s.unplaced ∧
    Derives (.stmt s.openIf s') s.need ts

def Stmt.SameEach (ss ss' : List Stmt) : Prop :=
  ss'.map Stmt.unplaced = ss.map Stmt.unplaced

theorem rereads_stmts {ss : List Stmt} (h : ∀ s ∈ ss, s.Rereads) {ts : List Token}
    (hts : Carries ts (Line.joined (ss.flatMap Stmt.lines))) :
    ∃ ss', Stmt.SameEach ss ss' ∧ Derives (.stmts ss') (Stmt.eachNeed ss) ts := by
  induction ss generalizing ts with
  | nil =>
    obtain rfl := hts.nil
    exact ⟨[], rfl, .noStmts⟩
  | cons s ss ih =>
    obtain ⟨hs, hss⟩ := List.forall_mem_cons.mp h
    rw [List.flatMap_cons, Line.joined_append] at hts
    obtain ⟨us, vs, rfl, hus, hvs⟩ := hts.append
    obtain ⟨s', hsame, hd⟩ := hs us hus
    obtain ⟨ss', hsames, hds⟩ := ih hss hvs
    refine ⟨s' :: ss', ?_, .stmts hd hds⟩
    rw [Stmt.SameEach, List.map_cons, List.map_cons, hsame, hsames]

/-- Statements between braces, on lines of their own. -/
theorem rereads_block {ss : List Stmt} (h : ∀ s ∈ ss, s.Rereads) {ts : List Token}
    (hts : Carries ts (mark .leftBrace :: Line.joined (ss.flatMap Stmt.lines) ++
      [mark .rightBrace])) :
    ∃ ss', Stmt.SameEach ss ss' ∧ Derives (.block ss') (Stmt.eachNeed ss) ts := by
  obtain ⟨us, c, rfl, hus, hc⟩ := hts.last
  obtain ⟨o, us, rfl, ho, hin⟩ := hus.mark
  obtain ⟨ss', hsames, hds⟩ := rereads_stmts h hin
  exact ⟨ss', hsames, .block ho hds hc⟩

namespace Stmt.Rereads

variable {e : Expr} {s s' : Stmt} {a b : Token}

theorem expr (he : e.Rereads) : (Stmt.expr e).Rereads := by
  intro ts hts
  rw [lines, Line.joined_ofPieces] at hts
  obtain ⟨us, t, rfl, hus, ht⟩ := hts.last
  obtain ⟨e', hsame, hd⟩ := he us hus
  refine ⟨.expr e', ?_, (Derives.expr hd.expression_of_atom ht).stmt_of_form⟩
  simp only [unplaced, Expr.unplaced, mapTokens] at hsame ⊢
  rw [hsame]

theorem bareVar (ha : a.Is .identifier) (hb : b.Is .identifier) :
    (Stmt.var a b none).Rereads := by
  intro ts hts
  rw [lines, Line.joined_ofPieces] at hts
  obtain ⟨a', us, rfl, hka, hsa, hus⟩ := hts.token ha
  obtain ⟨b', us, rfl, hkb, hsb, hus⟩ := hus.space.token hb
  obtain ⟨t, us, rfl, ht, hend⟩ := hus.mark
  obtain rfl := hend.nil
  refine ⟨.var a' b' none, ?_, (Derives.scalar hka hkb .noInitializer ht).stmt_of_form⟩
  simp only [unplaced, mapTokens, hsa, hsb]

theorem var (ha : a.Is .identifier) (hb : b.Is .identifier) (he : e.Rereads) :
    (Stmt.var a b (some e)).Rereads := by
  intro ts hts
  rw [lines, Line.joined_ofPieces] at hts
  obtain ⟨us, t, rfl, hus, ht⟩ := hts.last
  simp only [List.cons_append, List.nil_append] at hus
  obtain ⟨a', us, rfl, hka, hsa, hus⟩ := hus.token ha
  obtain ⟨b', us, rfl, hkb, hsb, hus⟩ := hus.space.token hb
  obtain ⟨q, us, rfl, hq, hus⟩ := hus.space.mark
  obtain ⟨e', hsame, hd⟩ := he us hus.space
  have hinit := Derives.initializer hq hd.expression_of_atom
  refine ⟨.var a' b' (some e'), ?_, (Derives.scalar hka hkb hinit ht).stmt_of_form⟩
  simp only [unplaced, Expr.unplaced, mapTokens, hsa, hsb, Option.map_some] at hsame ⊢
  rw [hsame]

theorem array {l : IntLiteral} (ha : a.Is .identifier) (hb : b.Is .identifier) (hl : Reads l)
    (hl' : l.token.Is .intLiteral) : (Stmt.array a b l).Rereads := by
  intro ts hts
  rw [lines, Line.joined_ofPieces] at hts
  obtain ⟨a', us, rfl, hka, hsa, hus⟩ := hts.token ha
  obtain ⟨b', us, rfl, hkb, hsb, hus⟩ := hus.space.token hb
  obtain ⟨o, us, rfl, ho, hus⟩ := hus.mark
  obtain ⟨n, us, rfl, hkn, hsn, hus⟩ := hus.token hl'
  obtain ⟨c, us, rfl, hc, hus⟩ := hus.mark
  obtain ⟨t, us, rfl, ht, hend⟩ := hus.mark
  obtain rfl := hend.nil
  have hform := Derives.array hka hkb ho (hl.relocate hkn hsn) hc ht
  refine ⟨.array a' b' ⟨l.value, n⟩, ?_, hform.stmt_of_form⟩
  simp only [unplaced, mapTokens, hsa, hsb, hsn]

theorem block {ss : List Stmt} (hss : ∀ s ∈ ss, s.Rereads) : (Stmt.block ss).Rereads := by
  intro ts hts
  rw [lines, eachLines_eq_flatMap, Line.joined_append, Line.joined_append, Line.joined_indented,
    Line.joined_ofPieces, Line.joined_ofPieces] at hts
  obtain ⟨ss', hsames, hds⟩ := rereads_block hss hts
  refine ⟨.block ss', ?_, (Derives.blockForm hds).stmt_of_form⟩
  have hmap : ss'.map (mapTokens Token.unplaced) = ss.map (mapTokens Token.unplaced) := hsames
  simp only [unplaced, mapTokens, mapEach_eq_map, hmap]

theorem loop (he : e.Rereads) (hs : s.Rereads) : (Stmt.loop e s).Rereads := by
  intro ts hts
  obtain ⟨us, vs, rfl, hus, hvs⟩ := hts.headed
  obtain ⟨w, o, us, c, rfl, hw, ho, hin, hc⟩ := hus.clause
  obtain ⟨e₁, hsame, hd⟩ := he us hin
  obtain ⟨s₁, hsame', hd'⟩ := hs vs hvs
  refine ⟨.loop e₁ s₁, ?_, ?_⟩
  · simp only [unplaced, Expr.unplaced, mapTokens] at hsame hsame' ⊢
    rw [hsame, hsame']
  · simp only [List.cons_append, List.append_assoc, List.nil_append]
    exact (Derives.loop hw ho hd.expression_of_atom hc hd').stmt_of_form

theorem ifThen (he : e.Rereads) (hs : s.Rereads) : (Stmt.ifThen e s).Rereads := by
  intro ts hts
  obtain ⟨us, vs, rfl, hus, hvs⟩ := hts.headed
  obtain ⟨w, o, us, c, rfl, hw, ho, hin, hc⟩ := hus.clause
  obtain ⟨e₁, hsame, hd⟩ := he us hin
  obtain ⟨s₁, hsame', hd'⟩ := hs vs hvs
  refine ⟨.ifThen e₁ s₁, ?_, ?_⟩
  · simp only [unplaced, Expr.unplaced, mapTokens] at hsame hsame' ⊢
    rw [hsame, hsame']
  · simp only [List.cons_append, List.append_assoc, List.nil_append]
    exact (Derives.ifThen hw ho hd.expression_of_atom hc hd').stmt_of_form

/-- The first branch does not take the `else`, because no `if` in it is open. -/
theorem ifElse (he : e.Rereads) (hs : s.Rereads) (hopen : s.openIf = false) (hs' : s'.Rereads) :
    (Stmt.ifElse e s s').Rereads := by
  intro ts hts
  rw [lines, Line.joined_append] at hts
  obtain ⟨us, ws, rfl, hus, hws⟩ := hts.append
  obtain ⟨us, vs, rfl, hus, hvs⟩ := hus.headed
  obtain ⟨w, o, us, c, rfl, hw, ho, hin, hc⟩ := hus.clause
  obtain ⟨ls, xs, rfl, hls, hxs⟩ := hws.headed
  obtain ⟨l, ls, rfl, hl, hend⟩ := hls.mark
  obtain rfl := hend.nil
  obtain ⟨e₁, hsame, hd⟩ := he us hin
  obtain ⟨s₁, hsame', hd'⟩ := hs vs hvs
  obtain ⟨s₂, hsame'', hd''⟩ := hs' xs hxs
  rw [hopen] at hd'
  refine ⟨.ifElse e₁ s₁ s₂, ?_, ?_⟩
  · simp only [unplaced, Expr.unplaced, mapTokens] at hsame hsame' hsame'' ⊢
    rw [hsame, hsame', hsame'']
  · simp only [List.cons_append, List.append_assoc, List.nil_append]
    exact (Derives.ifElse hw ho hd.expression_of_atom hc hd' hl hd'').stmt_of_form

theorem bareResult {k : Token} (hk : k.Is .reservedReturn) : (Stmt.result k none).Rereads := by
  intro ts hts
  rw [lines, Line.joined_ofPieces] at hts
  obtain ⟨k', us, rfl, hkk, hsk, hus⟩ := hts.mark_token hk rfl
  obtain ⟨t, us, rfl, ht, hend⟩ := hus.mark
  obtain rfl := hend.nil
  refine ⟨.result k' none, ?_, (Derives.result hkk .noValue ht).stmt_of_form⟩
  simp only [unplaced, mapTokens, hsk]

theorem result {k : Token} (hk : k.Is .reservedReturn) (he : e.Rereads) :
    (Stmt.result k (some e)).Rereads := by
  intro ts hts
  rw [lines, Line.joined_ofPieces] at hts
  obtain ⟨us, t, rfl, hus, ht⟩ := hts.last
  simp only [List.cons_append, List.nil_append] at hus
  obtain ⟨k', us, rfl, hkk, hsk, hus⟩ := hus.mark_token hk rfl
  obtain ⟨e', hsame, hd⟩ := he us hus.space
  have hvalue := Derives.value hd.expression_of_atom
  refine ⟨.result k' (some e'), ?_, (Derives.result hkk hvalue ht).stmt_of_form⟩
  simp only [unplaced, Expr.unplaced, mapTokens, hsk, Option.map_some] at hsame ⊢
  rw [hsame]

theorem empty : Stmt.empty.Rereads := by
  intro ts hts
  rw [lines, Line.joined_ofPieces] at hts
  obtain ⟨t, us, rfl, ht, hend⟩ := hts.mark
  obtain rfl := hend.nil
  exact ⟨.empty, rfl, (Derives.empty ht).stmt_of_form⟩

end Stmt.Rereads

/-- A statement that can be read is read again from its text. -/
theorem Stmt.Formed.rereads {s : Stmt} (h : s.Formed) : s.Rereads := by
  induction h with
  | expr he => exact .expr he.rereads
  | @var a b i ha hb hi =>
    cases i with
    | none => exact .bareVar ha hb
    | some e => exact .var ha hb (hi e rfl).rereads
  | array ha hb hl hl' => exact .array ha hb hl hl'
  | block _ ih => exact .block ih
  | loop he _ ih => exact .loop he.rereads ih
  | ifThen he _ ih => exact .ifThen he.rereads ih
  | ifElse he _ hopen _ ih ih' => exact .ifElse he.rereads ih hopen ih'
  | @result k v hk hv =>
    cases v with
    | none => exact .bareResult hk
    | some e => exact .result hk (hv e rfl).rereads
  | empty => exact .empty

theorem rereads_furtherParams {ps : List Param} (h : ∀ p ∈ ps, p.Formed) {ts : List Token}
    (hts : Carries ts ((ps.map Param.pieces).flatMap fun qs => [mark .comma, space] ++ qs)) :
    ∃ ps' : List Param, ps'.map (Param.mapTokens Token.unplaced) =
      ps.map (Param.mapTokens Token.unplaced) ∧ Derives (.furtherParams ps') 0 ts := by
  induction ps generalizing ts with
  | nil =>
    obtain rfl := hts.nil
    exact ⟨[], rfl, .noFurtherParams⟩
  | cons p ps ih =>
    obtain ⟨hp, hps⟩ := List.forall_mem_cons.mp h
    obtain ⟨t, us, rfl, ht, hus⟩ := hts.mark
    obtain ⟨a, us, rfl, hka, hsa, hus⟩ := hus.space.token hp.type
    obtain ⟨b, us, rfl, hkb, hsb, hus⟩ := hus.space.token hp.name
    obtain ⟨ps', hsames, hds⟩ := ih hps hus
    refine ⟨⟨a, b⟩ :: ps', ?_, .furtherParams ht hka hkb hds⟩
    rw [List.map_cons, List.map_cons, hsames, Param.mapTokens, Param.mapTokens, hsa, hsb]

theorem rereads_params {ps : List Param} (h : ∀ p ∈ ps, p.Formed) {ts : List Token}
    (hts : Carries ts (commas (ps.map Param.pieces))) :
    ∃ ps' : List Param, ps'.map (Param.mapTokens Token.unplaced) =
      ps.map (Param.mapTokens Token.unplaced) ∧ Derives (.params ps') 0 ts := by
  cases ps with
  | nil =>
    obtain rfl := hts.nil
    exact ⟨[], rfl, .noParams⟩
  | cons p ps =>
    obtain ⟨hp, hps⟩ := List.forall_mem_cons.mp h
    rw [List.map_cons, commas_cons] at hts
    obtain ⟨a, us, rfl, hka, hsa, hus⟩ := hts.token hp.type
    obtain ⟨b, us, rfl, hkb, hsb, hus⟩ := hus.space.token hp.name
    obtain ⟨ps', hsames, hds⟩ := rereads_furtherParams hps hus
    refine ⟨⟨a, b⟩ :: ps', ?_, .params hka hkb hds⟩
    rw [List.map_cons, List.map_cons, hsames, Param.mapTokens, Param.mapTokens, hsa, hsb]

theorem Function.Formed.rereads {f : Function} (h : f.Formed) {ts : List Token}
    (hts : Carries ts (Line.joined f.lines)) : ∃ f' : Function, f'.unplaced = f.unplaced ∧
      Derives (.function f') (Stmt.eachNeed f.body) ts := by
  rw [lines, Stmt.eachLines_eq_flatMap, Line.joined_append, Line.joined_append,
    Line.joined_indented, Line.joined_ofPieces, Line.joined_ofPieces] at hts
  simp only [List.cons_append, List.nil_append, List.append_assoc] at hts
  obtain ⟨r, us, rfl, hkr, hsr, hus⟩ := hts.token h.returnType
  obtain ⟨n, us, rfl, hkn, hsn, hus⟩ := hus.space.token h.name
  obtain ⟨o, us, rfl, ho, hus⟩ := hus.mark
  obtain ⟨us, vs, rfl, hin, hvs⟩ := hus.append
  obtain ⟨c, vs, rfl, hc, hvs⟩ := hvs.mark
  obtain ⟨ps', hparams, hps⟩ := rereads_params h.params hin
  obtain ⟨ss', hbody, hss⟩ := rereads_block (fun s hs => (h.body s hs).rereads) hvs.space
  refine ⟨⟨r, n, ps', ss'⟩, ?_, .function hkr hkn ho hps hc hss⟩
  have hmap : ss'.map (Stmt.mapTokens Token.unplaced) =
      f.body.map (Stmt.mapTokens Token.unplaced) := hbody
  simp only [unplaced, mapTokens, hsr, hsn, hparams, hmap]

theorem rereads_functions {fs : List Function} (h : ∀ f ∈ fs, f.Formed) {ts : List Token}
    (hts : Carries ts (fs.flatMap fun f => Line.joined f.lines)) : ∃ fs' : List Function,
      fs'.map Function.unplaced = fs.map Function.unplaced ∧
        Derives (.functions fs') (Function.eachNeed fs) ts := by
  induction fs generalizing ts with
  | nil =>
    obtain rfl := hts.nil
    exact ⟨[], rfl, .noFunctions⟩
  | cons f fs ih =>
    obtain ⟨hf, hfs⟩ := List.forall_mem_cons.mp h
    rw [List.flatMap_cons] at hts
    obtain ⟨us, vs, rfl, hus, hvs⟩ := hts.append
    obtain ⟨f', hsame, hd⟩ := hf.rereads hus
    obtain ⟨fs', hsames, hds⟩ := ih hfs hvs
    refine ⟨f' :: fs', ?_, .functions hd hds⟩
    rw [List.map_cons, List.map_cons, hsame, hsames]

/-- The empty lines between functions hold nothing. -/
theorem Program.joined_lines (p : Program) :
    Line.joined p.lines = p.functions.flatMap fun f => Line.joined f.lines := by
  rw [← List.flatMap_map, lines]
  generalize p.functions.map Function.lines = groups
  induction groups with
  | nil => rfl
  | cons lines groups ih =>
    cases groups with
    | nil => simp
    | cons lines' groups =>
      rw [List.intercalate_cons_cons, Line.joined_append, Line.joined_append, ih,
        Line.joined_ofPieces, List.append_nil]
      rfl

/-- Tokens that carry the text of a program are read as that program, wherever they stand. -/
theorem Program.Formed.rereads_of_carries {p : Program} (h : p.Formed) {ts : List Token}
    (hts : Carries ts (Line.joined p.lines)) : ∃ q : Program, q.unplaced = p.unplaced ∧
      Derives (.functions q.functions) (Function.eachNeed p.functions) ts := by
  rw [joined_lines] at hts
  obtain ⟨fs', hsames, hds⟩ := rereads_functions h hts
  refine ⟨⟨fs'⟩, ?_, hds⟩
  have hmap : fs'.map (Function.mapTokens Token.unplaced) =
      p.functions.map (Function.mapTokens Token.unplaced) := hsames
  simp only [unplaced, mapTokens, hmap]

theorem Program.Formed.rereads {p : Program} (h : p.Formed) : ∃ q : Program,
    q.unplaced = p.unplaced ∧ Derives (.functions q.functions) (Function.eachNeed p.functions)
      (tokenize p.text).tokens :=
  h.rereads_of_carries h.tokenize_text.1

/-- Only one program has its text in given tokens. No limit on nesting comes in: the grammar derives
the tree of either program from the tokens, and has one tree for them. -/
theorem Program.Formed.unplaced_unique {p q : Program} (hp : p.Formed) (hq : q.Formed)
    {ts : List Token} (hpts : Carries ts (Line.joined p.lines))
    (hqts : Carries ts (Line.joined q.lines)) : p.unplaced = q.unplaced := by
  obtain ⟨p', hsame, hd⟩ := hp.rereads_of_carries hpts
  obtain ⟨q', hsame', hd'⟩ := hq.rereads_of_carries hqts
  obtain ⟨rfl, -⟩ := hd.program_unique hd'
  exact hsame.symm.trans hsame'

/-- A program that was read from a source can be read. -/
theorem formed_of_compile {source : String} {p : Program} (h : compile source = .ok p) :
    p.Formed := by
  obtain ⟨herrors, hparse⟩ := compile_ok_iff.mp h
  obtain ⟨d, -, hd⟩ := (recognizes_parseProgram.ok_iff _ _).mp hparse
  exact hd.formed fun t ht => writes_of_mem_tokens herrors ht

/-- The text of a program that was read is read as the same program at other places, with the same
text, if no statement of a function needs more levels of nesting than there are, and is refused as
nested too deeply if one does. -/
theorem compile_text_of_compile {source : String} {p : Program} (h : compile source = .ok p) :
    ((∀ f ∈ p.functions, ∀ s ∈ f.body, s.need ≤ maxNesting) →
      ∃ q, compile p.text = .ok q ∧ q.unplaced = p.unplaced ∧ q.text = p.text) ∧
    ((∃ f ∈ p.functions, ∃ s ∈ f.body, maxNesting < s.need) →
      ∃ e, compile p.text = .error (.syntactic e) ∧ e.NestedTooDeeply) := by
  have hformed := formed_of_compile h
  have herrors := hformed.tokenize_text.2
  obtain ⟨q, hsame, hd⟩ := hformed.rereads
  constructor
  · intro hneed
    have hle : Function.eachNeed p.functions ≤ maxNesting := Function.eachNeed_le_iff.mpr hneed
    have hparse := (recognizes_parseProgram.ok_iff _ q).mpr ⟨_, hle, hd⟩
    exact ⟨q, compile_ok_iff.mpr ⟨herrors, hparse⟩, hsame, Program.text_eq_of_unplaced_eq hsame⟩
  · intro hneed
    have hlt : maxNesting < Function.eachNeed p.functions := Function.lt_eachNeed_iff.mpr hneed
    obtain ⟨e, hparse, hdeep⟩ := recognizes_parseProgram.tooDeep _ q _ hd hlt
    refine ⟨e, ?_, hdeep⟩
    rw [compile_of_errors_eq_nil herrors, hparse]
    rfl

def negations (n : Nat) : String :=
  String.ofList ("f g()\x7b".toList ++ List.replicate n '-' ++ "x;\x7d".toList)

def textNeed? (source : String) : Option Nat :=
  (compile source).toOption.map fun p => Function.eachNeed p.functions

theorem exists_of_textNeed? {source : String} {n : Nat} (h : textNeed? source = some n) :
    ∃ p, compile source = .ok p ∧ Function.eachNeed p.functions = n :=
  exists_of_map_toOption h

/-- Printed signs take two levels each: 127 of them are read again, and 128 are not, although the
source only needs 130 levels. -/
theorem compile_text_of_negations :
    (∃ p q, compile (negations 127) = .ok p ∧ compile p.text = .ok q ∧ q.unplaced = p.unplaced ∧
      q.text = p.text) ∧
    ∃ p e, compile (negations 128) = .ok p ∧ compile p.text = .error (.syntactic e) ∧
      e.NestedTooDeeply := by
  constructor
  · have hneed : textNeed? (negations 127) = some 256 := by decide +kernel
    obtain ⟨p, h, hneed⟩ := exists_of_textNeed? hneed
    have hshallow := Function.eachNeed_le_iff.mp (Nat.le_of_eq hneed)
    obtain ⟨q, hq⟩ := (compile_text_of_compile h).1 hshallow
    exact ⟨p, q, h, hq⟩
  · have hneed : textNeed? (negations 128) = some 258 := by decide +kernel
    obtain ⟨p, h, hneed⟩ := exists_of_textNeed? hneed
    have hdeep := Function.lt_eachNeed_iff.mp (hneed ▸ (by decide : maxNesting < 258))
    obtain ⟨e, he⟩ := (compile_text_of_compile h).2 hdeep
    exact ⟨p, e, h, he⟩

/-- Programs whose texts have the same words, kinds and lexemes in order, are the same up to the
places of their tokens, also where the texts are nested too deeply to be read again. -/
theorem compile_unplaced_eq_of_words_eq {source source' : String} {p q : Program}
    (hp : compile source = .ok p) (hq : compile source' = .ok q)
    (h : (tokenize p.text).tokens.map Token.word = (tokenize q.text).tokens.map Token.word) :
    p.unplaced = q.unplaced := by
  have hformed := formed_of_compile hp
  have hformed' := formed_of_compile hq
  have hqts : Carries (tokenize q.text).tokens (Line.joined q.lines) := hformed'.tokenize_text.1
  have hpts : Carries (tokenize q.text).tokens (Line.joined p.lines) := by
    rw [Carries, ← h]
    exact hformed.tokenize_text.1
  exact hformed.unplaced_unique hformed' hpts hqts

def textWords? (source : String) : Option (List (Kind × String)) :=
  (compile source).toOption.map fun p => (tokenize p.text).tokens.map Token.word

/-- Two layouts of one function, the second with parentheses of its own and a comment. -/
theorem compile_unplaced_eq_of_layouts :
    ∃ p q, compile "f g()\x7bx+y*z;\x7d" = .ok p ∧
      compile "f g()\n\x7b\n  (x + (y * z)); // sum\n\x7d" = .ok q ∧ p.unplaced = q.unplaced := by
  have hsome : (textWords? "f g()\x7bx+y*z;\x7d").isSome := by decide +kernel
  have hsame : textWords? "f g()\n\x7b\n  (x + (y * z)); // sum\n\x7d" =
      textWords? "f g()\x7bx+y*z;\x7d" := by decide +kernel
  obtain ⟨ws, hws⟩ := Option.isSome_iff_exists.mp hsome
  obtain ⟨p, hp, hpws⟩ := exists_of_map_toOption hws
  obtain ⟨q, hq, hqws⟩ := exists_of_map_toOption (hsame.trans hws)
  exact ⟨p, q, hp, hq, compile_unplaced_eq_of_words_eq hp hq (hpws.trans hqws.symm)⟩

end BraceLang
