import BraceLang.Compile
import BraceLang.Proofs.Spelling
import BraceLang.Proofs.Recognition
import BraceLang.Proofs.Relocation

/-!
# Sources put one below another

A newline ends every chunk, just as the end of the text does. So two texts with a newline between
them have the chunks of the first, a blank, and the chunks of the second further down. The parser
reads the functions of the first and is then where it starts on the second, with all levels of
nesting closed; that the tokens stand further down makes no difference to it.
-/

namespace BraceLang

def Location.down (n : Nat) (p : Location) : Location :=
  ⟨p.line + n, p.column⟩

def Token.down (n : Nat) (t : Token) : Token :=
  ⟨t.kind, t.start.down n, t.stop.down n, t.lexeme⟩

def LexicalError.down (n : Nat) (e : LexicalError) : LexicalError :=
  ⟨e.fault, e.location.down n⟩

def Diagnostic.down (n : Nat) (d : Diagnostic) : Diagnostic :=
  ⟨d.stage, d.location.down n, d.message⟩

theorem Location.next_down (n : Nat) (p : Location) (c : Char) :
    (p.down n).next c = (p.next c).down n := by
  unfold next down
  by_cases hc : c = '\n'
  · rw [if_pos hc, if_pos hc, Nat.add_right_comm]
  · rw [if_neg hc, if_neg hc]

theorem Location.after_down (n : Nat) (p : Location) (text : List Char) :
    (p.down n).after text = (p.after text).down n := by
  induction text generalizing p with
  | nil => rfl
  | cons c text ih => rw [after_cons, after_cons, next_down, ih]

theorem Location.line_after (p : Location) (text : List Char) :
    (p.after text).line = p.line + text.count '\n' := by
  induction text generalizing p with
  | nil => rfl
  | cons c text ih =>
    rw [after_cons, ih]
    by_cases hc : c = '\n'
    · subst hc
      rw [next, if_pos rfl, List.count_cons_self]
      change p.line + 1 + text.count '\n' = p.line + (text.count '\n' + 1)
      omega
    · rw [next, if_neg hc, List.count_cons_of_ne hc]

/-- How many lines a text takes up. -/
def height (text : List Char) : Nat :=
  1 + text.count '\n'

/-- Behind a text and a newline a fresh text starts, as many lines down. -/
theorem Location.after_newline (text : List Char) :
    origin.after (text ++ ['\n']) = origin.down (height text) := by
  rw [after_append, after_cons, after_nil, next, if_pos rfl, line_after, down, height]
  congr 1
  omega

section Chunk

open Chunk

variable (rest next : List Char)

theorem takeWhile_append_newline {p : Char → Bool} (hp : p '\n' = false) :
    (rest ++ '\n' :: next).takeWhile p = rest.takeWhile p := by
  rw [List.takeWhile_append]
  split
  · next h =>
    rw [List.takeWhile_cons_of_neg (by simp [hp]), List.append_nil]
    exact ((List.takeWhile_prefix p).eq_of_length h).symm
  · rfl

theorem head?_append_newline {d : Char} (hd : d ≠ '\n') :
    (rest ++ '\n' :: next).head? = some d ↔ rest.head? = some d := by
  cases rest with
  | nil => simp [Ne.symm hd]
  | cons c rest => rfl

theorem head?_drop_takeWhile_append_newline (p : Char → Bool) {d : Char} (hd : d ≠ '\n') :
    ((rest ++ '\n' :: next).drop (rest.takeWhile p).length).head? = some d ↔
      (rest.drop (rest.takeWhile p).length).head? = some d := by
  rw [List.drop_append_of_le_length (List.takeWhile_prefix p).length_le]
  exact head?_append_newline _ _ hd

/-- A newline ends a chunk like the end of the text. -/
theorem extent_append_newline (c : Char) :
    extent c (rest ++ '\n' :: next) = extent c rest := by
  have hword := takeWhile_append_newline rest next (p := isWordPart) (by decide)
  have hcomment := takeWhile_append_newline rest next (p := (· ≠ '\n')) (by decide)
  have hnumber : number (rest ++ '\n' :: next) = number rest := by
    unfold number
    simp only [takeWhile_append_newline rest next (p := Char.isDigit) (by decide),
      takeWhile_append_newline rest next (p := isDigitOrPoint) (by decide),
      head?_drop_takeWhile_append_newline rest next _ (by decide : '.' ≠ '\n')]
  have hquoted : quoted (rest ++ '\n' :: next) = quoted rest := by
    unfold quoted
    simp only [takeWhile_append_newline rest next (p := staysInString) (by decide),
      head?_drop_takeWhile_append_newline rest next _ (by decide : '"' ≠ '\n')]
  have hmark : mark c (rest ++ '\n' :: next) = mark c rest := by
    unfold mark
    simp only [head?_append_newline rest next (by decide : '=' ≠ '\n')]
  unfold extent
  simp only [hword, hcomment, hnumber, hquoted, hmark,
    head?_append_newline rest next (by decide : '/' ≠ '\n')]

theorem chunks_append_newline (text : List Char) :
    chunks (text ++ '\n' :: next) = chunks text ++ ⟨.blank, ['\n']⟩ :: chunks next := by
  induction text using chunks_induction with
  | nil =>
    rw [List.nil_append, chunks_cons]
    rfl
  | cons c rest body later hcut ih =>
    have hsplit : rest ++ '\n' :: next = body ++ (later ++ '\n' :: next) := by
      rw [hcut.split, List.append_assoc]
    rw [List.cons_append, chunks_cons, extent_append_newline, chunks_of_cut hcut, hcut.length,
      hsplit, List.take_left, List.drop_left, ih, List.cons_append]

end Chunk

namespace Lexed

theorem place_append (p : Location) (ks ks' : List Chunk) :
    place p (ks ++ ks') =
      ⟨(place p ks).tokens ++ (place (p.after (ks.flatMap Chunk.text)) ks').tokens,
        (place p ks).errors ++ (place (p.after (ks.flatMap Chunk.text)) ks').errors⟩ := by
  induction ks generalizing p with
  | nil => rfl
  | cons k ks ih =>
    rw [List.cons_append, place, place, ih, List.flatMap_cons, Location.after_append]
    simp only [List.append_assoc]

end Lexed

theorem Chunk.points_down (n : Nat) (p : Location) (text : List Char) :
    points (p.down n) text = (points p text).map (Location.down n) := by
  induction text generalizing p with
  | nil => rfl
  | cons c text ih =>
    rw [points, points, Location.next_down, ih]
    split <;> rfl

theorem Chunk.token?_down (n : Nat) (p : Location) (k : Chunk) :
    k.token? (p.down n) = (k.token? p).map (Token.down n) := by
  rcases k with ⟨shape, text⟩
  cases shape <;> simp [token?, Token.down, Location.after_down]

theorem Chunk.errors_down (n : Nat) (p : Location) (k : Chunk) :
    k.errors (p.down n) = (k.errors p).map (LexicalError.down n) := by
  rcases k with ⟨shape, text⟩
  cases shape with
  | blank => rfl
  | comment => rfl
  | fault what => rfl
  | token kind =>
    by_cases hkind : kind = .floatLiteral
    · subst hkind
      simp only [errors, points_down, ← List.map_tail, List.map_map]
      rfl
    · cases kind <;> first | rfl | exact absurd rfl hkind

/-- Chunks that start further down are the same tokens and errors further down. -/
theorem Lexed.place_down (n : Nat) (p : Location) (ks : List Chunk) : place (p.down n) ks =
    ⟨(place p ks).tokens.map (Token.down n), (place p ks).errors.map (LexicalError.down n)⟩ := by
  induction ks generalizing p with
  | nil => rfl
  | cons k ks ih =>
    rw [place, place, Location.after_down, ih, Chunk.token?_down, Chunk.errors_down]
    cases k.token? p <;> simp

/-- Below a text and a newline the places are those of a fresh text, as many lines down. -/
theorem place_chunks_append_newline (text next : List Char) :
    Lexed.place .origin (chunks (text ++ '\n' :: next)) =
      ⟨(Lexed.place .origin (chunks text)).tokens ++
          (Lexed.place .origin (chunks next)).tokens.map (Token.down (height text)),
        (Lexed.place .origin (chunks text)).errors ++
          (Lexed.place .origin (chunks next)).errors.map (LexicalError.down (height text))⟩ := by
  have hnewline : (Location.origin.after ((chunks text).flatMap Chunk.text)).after ['\n'] =
      Location.origin.down (height text) := by
    rw [← Location.after_append, Chunk.join_chunks, Location.after_newline]
  have hblank : ∀ p ks, Lexed.place p (⟨.blank, ['\n']⟩ :: ks) = Lexed.place (p.after ['\n']) ks :=
    fun _ _ => rfl
  rw [chunks_append_newline, Lexed.place_append, hblank, hnewline, Lexed.place_down]

namespace Grammar

open BraceLang.Grammar.Parser

theorem relocates_down (n : Nat) : Relocates (Token.down n) :=
  ⟨fun _ => rfl, fun _ => rfl⟩

def onValue {α β : Type} (g : α → β) (r : Except Failure α × List Token) :
    Except Failure β × List Token :=
  (r.1.map g, r.2)

theorem run_map_eq {α β : Type} (g : α → β) (p : Parser α) (ts : List Token) :
    run (g <$> p) ts = onValue g (run p ts) := rfl

theorem onValue_onValue {α β γ : Type} (g : β → γ) (g' : α → β)
    (r : Except Failure α × List Token) : onValue g (onValue g' r) = onValue (g ∘ g') r := by
  rcases r with ⟨e | a, rest⟩ <;> rfl

/-- Behind functions that are read the parser goes on like at the start. -/
theorem Derives.run_functions {fs : List Function} {d : Nat} {ts : List Token}
    (h : Derives (.functions fs) d ts) {room : Nat} (hd : d ≤ room) (us : List Token) :
    run (many moreTokens (Parser.function (.within room))) (ts ++ us) =
      onValue (fs ++ ·) (run (many moreTokens (Parser.function (.within room))) us) := by
  induction fs generalizing ts d with
  | nil =>
    cases h
    rw [List.nil_append]
    rcases run (many moreTokens (Parser.function (.within room))) us with ⟨e | fs', rest⟩ <;> rfl
  | cons f fs ih =>
    cases h with
    | @functions _ _ d d' ts ts' hf hfs =>
      -- a function is read whatever stands behind it, and its first token says that there is one
      have hread := hf.parsed room (ts' ++ us)
      rw [Meets, if_pos (by omega)] at hread
      obtain ⟨t, ts, rfl, -⟩ := hf.head rfl
      have htest : run moreTokens (t :: ts ++ (ts' ++ us)) = (.ok true, t :: ts ++ (ts' ++ us)) :=
        rfl
      rw [run_many looks_moreTokens (Phrase.Parsed.function_progresses room), Parser.round,
        List.append_assoc, run_bind_of_ok _ htest, if_pos rfl, run_bind_of_ok _ hread, run_map_eq,
        ih hfs (by omega), onValue_onValue]
      rfl

theorem Derives.run_program_append {p : Program} {d : Nat} {ts : List Token}
    (h : Derives (.functions p.functions) d ts) {room : Nat} (hd : d ≤ room) (us : List Token) :
    run (Parser.program (.within room)) (ts ++ us) =
      onValue (fun q => ⟨p.functions ++ q.functions⟩) (run (Parser.program (.within room)) us) := by
  rw [Parser.program, run_enter_bind, run_enter_bind, run_bind, run_bind, h.run_functions hd us]
  rcases run (many moreTokens (Parser.function (.within room))) us with ⟨e | fs', rest⟩ <;> rfl

theorem endLocation_append_down (n : Nat) (ts : List Token) {us : List Token} (h : us ≠ []) :
    endLocation (ts ++ us.map (Token.down n)) = (endLocation us).down n := by
  obtain ⟨last, hlast⟩ : ∃ t, us.getLast? = some t :=
    ⟨_, List.getLast?_eq_some_getLast h⟩
  rw [endLocation, endLocation, List.getLast?_append, List.getLast?_map, hlast]
  rfl

/-- Behind the tokens of a program, tokens further down are read as they are on their own. -/
theorem parseProgram_append_down {p : Program} {ts us : List Token} (n : Nat)
    (h : parseProgram ts = .ok p) :
    (∀ q, parseProgram us = .ok q → parseProgram (ts ++ us.map (Token.down n)) =
      .ok ⟨p.functions ++ (q.mapTokens (Token.down n)).functions⟩) ∧
    ∀ e, parseProgram us = .error e → ∃ e', parseProgram (ts ++ us.map (Token.down n)) = .error e' ∧
      e'.message = e.message ∧ e'.location = e.location.down n ∧
        e'.token = e.token.map (Token.down n) := by
  obtain ⟨d, hd, hp⟩ := (recognizes_parseProgram.ok_iff _ _).mp h
  have hmoves := (moves_programParser (relocates_down n) maxNesting).run_map us
  have happend := hp.run_program_append hd (us.map (Token.down n))
  constructor
  · intro q hq
    rw [run_of_answer_ok hq] at hmoves
    exact answer_of_run_ok (happend.trans (congrArg (onValue _) hmoves))
  · intro e he
    obtain ⟨failure, hrun, rfl⟩ := run_of_answer_error he
    have hne : us ≠ [] := by
      rintro rfl
      cases he
    rw [hrun] at hmoves
    refine ⟨_, answer_of_run_error (happend.trans (congrArg (onValue _) hmoves)),
      failure.cause.message_mapTokens (relocates_down n), ?_, rfl⟩
    rw [Failure.within, Failure.mapTokens]
    rcases failure with ⟨cause, _ | t⟩
    · exact endLocation_append_down n ts hne
    · rfl

end Grammar

theorem tokenize_below (source next : String) : tokenize (source ++ "\n" ++ next) =
    ⟨(tokenize source).tokens ++
        (tokenize next).tokens.map (Token.down (height source.toList)),
      (tokenize source).errors ++
        (tokenize next).errors.map (LexicalError.down (height source.toList))⟩ := by
  have hlist : (source ++ "\n" ++ next).toList = source.toList ++ '\n' :: next.toList := by
    simp
  rw [tokenize, hlist]
  exact place_chunks_append_newline _ _

theorem Token.down_down (m n : Nat) (t : Token) : (t.down m).down n = t.down (n + m) := by
  simp only [down, Location.down, Nat.add_assoc, Nat.add_comm m n]

theorem LexicalError.down_down (m n : Nat) (e : LexicalError) :
    (e.down m).down n = e.down (n + m) := by
  simp only [down, Location.down, Nat.add_assoc, Nat.add_comm m n]

theorem height_of_notMem {text : List Char} (h : '\n' ∉ text) : height text = 1 := by
  rw [height, List.count_eq_zero_of_not_mem h]

/-- Each line of a text has the tokens and the errors that it has on its own, as many lines down as
there are lines above it. -/
theorem tokenize_lines {lines : List String} (h : ∀ line ∈ lines, '\n' ∉ line.toList) :
    tokenize ("\n".intercalate lines) =
      ⟨lines.zipIdx.flatMap fun (line, above) => (tokenize line).tokens.map (Token.down above),
        lines.zipIdx.flatMap fun (line, above) =>
          (tokenize line).errors.map (LexicalError.down above)⟩ := by
  suffices hdown : ∀ n, (tokenize ("\n".intercalate lines)).tokens.map (Token.down n) =
      ((lines.zipIdx n).flatMap fun (line, above) =>
        (tokenize line).tokens.map (Token.down above)) ∧
      (tokenize ("\n".intercalate lines)).errors.map (LexicalError.down n) =
      ((lines.zipIdx n).flatMap fun (line, above) =>
        (tokenize line).errors.map (LexicalError.down above)) by
    obtain ⟨htokens, herrors⟩ := hdown 0
    have htoken : Token.down 0 = id := rfl
    have herror : LexicalError.down 0 = id := rfl
    rw [← htokens, ← herrors, htoken, herror, List.map_id, List.map_id]
  induction lines with
  | nil => exact fun n => ⟨rfl, rfl⟩
  | cons line lines ih =>
    intro n
    cases lines with
    | nil => simp [String.intercalate_singleton]
    | cons line' lines =>
      obtain ⟨htokens, herrors⟩ := ih (fun l hl => h l (List.mem_cons_of_mem _ hl)) (n + 1)
      have hheight := height_of_notMem (h line List.mem_cons_self)
      rw [String.intercalate_cons_cons, tokenize_below, hheight, List.zipIdx_cons,
        List.flatMap_cons, List.flatMap_cons, ← htokens, ← herrors]
      simp [Function.comp_def, Token.down_down, LexicalError.down_down]

theorem Lexed.diagnostics_down (n : Nat) (ts : List Token) (lexed : Lexed) :
    (Lexed.mk ts (lexed.errors.map (LexicalError.down n))).diagnostics =
      lexed.diagnostics.map (Diagnostic.down n) := by
  rw [diagnostics, diagnostics, List.map_map, List.map_map]
  rfl

/-- Two texts one below the other have the tokens and the diagnostics of both, those of the lower
one as many lines down as the upper one takes up. -/
theorem tokens_and_diagnostics_below (source next : String) :
    (tokenize (source ++ "\n" ++ next)).tokens =
      (tokenize source).tokens ++ (tokenize next).tokens.map (Token.down (height source.toList)) ∧
    (tokenize (source ++ "\n" ++ next)).diagnostics =
      (tokenize source).diagnostics ++
        (tokenize next).diagnostics.map (Diagnostic.down (height source.toList)) := by
  have hbelow := tokenize_below source next
  constructor
  · rw [hbelow]
  · have hnext := (tokenize next).diagnostics_down (height source.toList) []
    rw [hbelow, ← hnext]
    exact List.map_append

/-- What is written below a program, behind a newline, comes to what it is on its own, further down:
more functions, or the same errors. -/
theorem compile_below {source : String} {p : Program} (h : compile source = .ok p)
    (next : String) :
    (∀ q, compile next = .ok q → compile (source ++ "\n" ++ next) =
      .ok ⟨p.functions ++ (q.mapTokens (Token.down (height source.toList))).functions⟩) ∧
    (∀ ds, compile next = .error (.lexical ds) → compile (source ++ "\n" ++ next) =
      .error (.lexical (ds.map (Diagnostic.down (height source.toList))))) ∧
    ∀ e, compile next = .error (.syntactic e) → ∃ e',
      compile (source ++ "\n" ++ next) = .error (.syntactic e') ∧ e'.message = e.message ∧
        e'.location = e.location.down (height source.toList) ∧
        e'.token = e.token.map (Token.down (height source.toList)) := by
  obtain ⟨herrors, hparse⟩ := compile_ok_iff.mp h
  have htokenize := tokenize_below source next
  rw [herrors, List.nil_append] at htokenize
  generalize height source.toList = n at htokenize ⊢
  refine ⟨fun q hq => ?_, fun ds hds => ?_, fun e he => ?_⟩
  · obtain ⟨hnone, hparse'⟩ := compile_ok_iff.mp hq
    rw [compile_ok_iff, htokenize, hnone]
    exact ⟨rfl, (Grammar.parseProgram_append_down n hparse).1 q hparse'⟩
  · obtain ⟨hsome, rfl⟩ := compile_lexical_iff.mp hds
    rw [compile_lexical_iff, htokenize, Lexed.diagnostics_down]
    exact ⟨by simpa using hsome, rfl⟩
  · obtain ⟨hnone, hparse'⟩ := compile_syntactic_iff.mp he
    obtain ⟨e', hjoined, hsame⟩ := (Grammar.parseProgram_append_down n hparse).2 e hparse'
    refine ⟨e', ?_, hsame⟩
    rw [compile_syntactic_iff, htokenize, hnone]
    exact ⟨rfl, hjoined⟩

/-- Below an empty function stand another one, a character that is not accepted and the beginning of
a function. -/
theorem compile_below_function : ∃ p, compile "f g()\x7b\x7d" = .ok p ∧
    (∃ q, compile "\nh k()\x7b\x7d" = .ok q ∧
      compile ("f g()\x7b\x7d" ++ "\n" ++ "\nh k()\x7b\x7d") =
        .ok ⟨p.functions ++ (q.mapTokens (Token.down 1)).functions⟩) ∧
    compile ("f g()\x7b\x7d" ++ "\n" ++ " @") =
      .error (.lexical [⟨.lexer, ⟨2, 2⟩, "Invalid character '@'"⟩]) ∧
    ∃ e, compile ("f g()\x7b\x7d" ++ "\n" ++ "h k") = .error (.syntactic e) ∧
      e.location = ⟨2, 4⟩ := by
  have hsome : ∀ source ∈ ["f g()\x7b\x7d", "\nh k()\x7b\x7d"],
      (compile source).toOption.map (fun _ => ()) = some () := by decide +kernel
  have hheight : height "f g()\x7b\x7d".toList = 1 := by decide
  obtain ⟨p, hp, -⟩ := exists_of_map_toOption (hsome _ List.mem_cons_self)
  obtain ⟨q, hq, -⟩ := exists_of_map_toOption (hsome _ (List.mem_cons_of_mem _ List.mem_cons_self))
  have hok := (compile_below hp "\nh k()\x7b\x7d").1 q hq
  have hat : compile " @" = .error (.lexical [⟨.lexer, ⟨1, 2⟩, "Invalid character '@'"⟩]) :=
    compile_of_compileError? (by decide +kernel)
  have hlexical := (compile_below hp " @").2.1 _ hat
  have hend : compile "h k" = .error (.syntactic ⟨.endOfInput, ⟨1, 4⟩, none⟩) :=
    compile_of_compileError? (by decide +kernel)
  obtain ⟨e, he, -, hlocation, -⟩ := (compile_below hp "h k").2.2 _ hend
  rw [hheight] at hok hlexical hlocation
  exact ⟨p, hp, ⟨q, hq, hok⟩, hlexical, e, he, hlocation⟩

end BraceLang
