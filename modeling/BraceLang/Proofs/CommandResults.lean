import BraceLang.Command.Run
import BraceLang.Proofs.Pointing

/-!
# What a command reports

A job without a log ends with code 0 and nothing on the error stream, or with code 1 and the
diagnostics of the one error that compiling the text gives, whatever the task. They are shown in the
style that the job has in its surroundings. A tree is written as a whole or not at all, while the
tokens are always written.

If writes to the output fail, only jobs with an output notice. They report the failed write in place
of everything else.
-/

namespace BraceLang.Command

theorem decode_toUTF8 (source : String) : decode source.toUTF8 = .ok source := by
  have htext : String.fromUTF8? source.toUTF8 = some source := dif_pos source.isValidUTF8
  unfold decode
  rw [htext]

/-- Compiling does not depend on the system, so it is not what fails. -/
theorem compile_ne_system (source text : String) : compile source ≠ .error (.system text) := by
  intro h
  by_cases herrors : (tokenize source).errors = []
  · rw [compile_of_errors_eq_nil herrors] at h
    cases hp : Grammar.parseProgram (tokenize source).tokens <;> rw [hp] at h <;> cases h
  · rw [compile_of_errors_ne_nil herrors] at h
    cases h

/-- No event is important enough for a log that was not asked for. -/
theorem logLines_warn (events : List Event) : logLines (shownLevel 0) events = [] := by
  have hrank (e : Event) : ¬ e.level.rank ≤ (shownLevel 0).rank := by
    cases e <;> exact of_decide_eq_true rfl
  unfold logLines
  rw [List.filter_eq_nil_iff.mpr fun e _ => by simpa using hrank e]
  rfl

def Job.written (job : Job) (p : Program) : String :=
  match job.task, job.form with
  | .check, _ => "ok\n"
  | _, .outline => p.outline.text ++ "\n"
  | _, .source => p.text

namespace Plan

variable {job : Job} {source : String}

theorem ofJob_tokens (h : job.task = .tokens) : ofJob job = tokens := by
  unfold ofJob
  rw [h]

theorem ofJob_compiled (h : job.task ≠ .tokens) : ofJob job = compiled job.written := by
  rcases job with ⟨task, input, form, color, verbosity⟩
  cases task with
  | tokens => exact absurd rfl h
  | parse => cases form <;> rfl
  | check => rfl

theorem ofJob_of_ok {p : Program} (htask : job.task ≠ .tokens) (h : compile source = .ok p) :
    ofJob job source = ⟨compileEvents source, job.written p, .ok ()⟩ := by
  rw [ofJob_compiled htask, compiled, h]

theorem ofJob_of_error {e : CompileError} (htask : job.task ≠ .tokens)
    (h : compile source = .error e) : ofJob job source = ⟨compileEvents source, "", .error e⟩ := by
  rw [ofJob_compiled htask, compiled, h]

theorem verdict_tokens (htask : job.task = .tokens) (source : String) :
    (ofJob job source).verdict =
    if (tokenize source).errors = [] then .ok ()
    else .error (.lexical (tokenize source).diagnostics) := by
  rw [ofJob_tokens htask]
  by_cases h : (tokenize source).errors = [] <;> simp [tokens, Lexed.hadError, h]

/-- Whatever the task, the text is refused with the error of compiling it. -/
theorem compile_of_verdict {e : CompileError} (h : (ofJob job source).verdict = .error e) :
    compile source = .error e := by
  by_cases htask : job.task = .tokens
  · rw [verdict_tokens htask source] at h
    split_ifs at h with herrors
    rw [compile_of_errors_ne_nil herrors, Except.error.inj h]
  · cases hc : compile source with
    | ok p =>
      rw [ofJob_of_ok htask hc] at h
      cases h
    | error e' =>
      rw [ofJob_of_error htask hc] at h
      rw [Except.error.inj h]

end Plan

namespace Job

variable {job : Job} {source : String}

/-- An error of compiling is shown as its diagnostics. -/
theorem report_of_compile (job : Job) (s : Surroundings) {e : CompileError}
    (h : compile source = .error e) :
    job.report s source e = displayAll (job.color.style s) (some source) e.diagnostics := by
  cases e with
  | lexical ds => rfl
  | syntactic e => rfl
  | system text => exact absurd h (compile_ne_system source text)

section Quiet

variable (hquiet : job.verbosity = 0) (noColor terminal : Bool)

include hquiet

theorem runOn_of_ok (h : (Plan.ofJob job source).verdict = .ok ()) :
    job.runOn ⟨noColor, terminal, none⟩ source = ⟨0, (Plan.ofJob job source).output, ""⟩ := by
  simp only [runOn, hquiet, logLines_warn, h]
  rfl

theorem runOn_of_error {e : CompileError} (h : (Plan.ofJob job source).verdict = .error e) :
    job.runOn ⟨noColor, terminal, none⟩ source = ⟨1, (Plan.ofJob job source).output,
      displayAll (job.color.style ⟨noColor, terminal, none⟩) (some source) e.diagnostics⟩ := by
  have hreport := job.report_of_compile ⟨noColor, terminal, none⟩ (Plan.compile_of_verdict h)
  simp only [runOn, hquiet, logLines_warn, h, hreport]
  rfl

theorem output_runOn :
    (job.runOn ⟨noColor, terminal, none⟩ source).output = (Plan.ofJob job source).output := by
  cases h : (Plan.ofJob job source).verdict with
  | ok => rw [runOn_of_ok hquiet noColor terminal h]
  | error e => rw [runOn_of_error hquiet noColor terminal h]

/-- A failing output is noticed if there is something to write. -/
theorem runOn_of_writeError (text : String) :
    job.runOn ⟨noColor, terminal, some text⟩ source =
      if (job.runOn ⟨noColor, terminal, none⟩ source).output = "" then
        job.runOn ⟨noColor, terminal, none⟩ source
      else ⟨1, "", s!"Error: {job.input}: {text}\n"⟩ := by
  rw [output_runOn hquiet]
  have hstyle : job.color.style ⟨noColor, terminal, some text⟩ =
      job.color.style ⟨noColor, terminal, none⟩ := rfl
  by_cases hempty : (Plan.ofJob job source).output = ""
  · rw [if_pos hempty]
    cases h : (Plan.ofJob job source).verdict with
    | ok => simp only [runOn, hempty, h, if_true]
    | error e =>
      have hreport (s : Surroundings) := job.report_of_compile s (Plan.compile_of_verdict h)
      simp only [runOn, hempty, h, if_true, hreport, hstyle]
  · rw [if_neg hempty]
    simp only [runOn, hquiet, logLines_warn, hempty, if_false, report]
    rfl

end Quiet

end Job

/-- How a job ends whose output is written: with a tree or nothing, or with the tokens in any case,
and with the diagnostics of a text that it refuses. -/
structure Job.Reports (job : Job) (style : Style) (source : String) (r : Result) : Prop where
  code : r.code = 0 ∨ r.code = 1
  tokens : job.task = .tokens →
    r.output = String.join ((tokenize source).tokens.map fun t => t.listing ++ "\n") ∧
    (∀ t ∈ (tokenize source).tokens, OneLine t.listing) ∧
    (r.code = 0 ↔ (tokenize source).errors = [])
  tree : job.task ≠ .tokens →
    (∀ p, compile source = .ok p → r.output = job.written p) ∧
    (r.code = 0 ↔ ∃ p, compile source = .ok p) ∧ (r.code = 1 → r.output = "")
  accepted : r.code = 0 → r.errors = ""
  refused : r.code = 1 → ∃ e, compile source = .error e ∧
    r.errors = displayAll style (some source) e.diagnostics

theorem oneLine_listing {source : String} {t : Token} (ht : t ∈ (tokenize source).tokens) :
    OneLine t.listing := by
  obtain ⟨-, -, -, hspells, -⟩ := exists_drop_of_mem_tokens ht
  have hlexeme : OneLine t.lexeme := hspells.notMem_newline
  have hlit : OneLine ":" ∧ OneLine "-" ∧ OneLine " " ∧ OneLine " '" ∧ OneLine "'" := by decide
  obtain ⟨hcolon, hdash, hspace, hopen, hclose⟩ := hlit
  have hlocation (p : Location) : OneLine p.text :=
    ((oneLine_nat p.line).append hcolon).append (oneLine_nat p.column)
  have htext : OneLine t.text := ((t.kind.oneLine_label.append hopen).append hlexeme).append hclose
  exact (((hlocation t.start).append hdash).append (hlocation t.stop)).append hspace |>.append htext

namespace Job

variable {job : Job} {source : String}

theorem reports_tokens (hquiet : job.verbosity = 0) (htask : job.task = .tokens)
    (noColor terminal : Bool) : job.Reports (job.color.style ⟨noColor, terminal, none⟩) source
      (job.runOn ⟨noColor, terminal, none⟩ source) := by
  have hverdict := Plan.verdict_tokens htask source
  have houtput : (Plan.ofJob job source).output =
      String.join ((tokenize source).tokens.map fun t => t.listing ++ "\n") := by
    rw [Plan.ofJob_tokens htask]
    rfl
  by_cases herrors : (tokenize source).errors = []
  · rw [if_pos herrors] at hverdict
    rw [runOn_of_ok hquiet noColor terminal hverdict]
    exact
      { code := .inl rfl
        tokens := fun _ => ⟨houtput, fun _ => oneLine_listing, by simp [herrors]⟩
        tree := fun h => absurd htask h
        accepted := fun _ => rfl
        refused := nofun }
  · rw [if_neg herrors] at hverdict
    rw [runOn_of_error hquiet noColor terminal hverdict]
    exact
      { code := .inr rfl
        tokens := fun _ => ⟨houtput, fun _ => oneLine_listing, by simp [herrors]⟩
        tree := fun h => absurd htask h
        accepted := nofun
        refused := fun _ => ⟨_, compile_of_errors_ne_nil herrors, rfl⟩ }

theorem reports_tree (hquiet : job.verbosity = 0) (htask : job.task ≠ .tokens)
    (noColor terminal : Bool) : job.Reports (job.color.style ⟨noColor, terminal, none⟩) source
      (job.runOn ⟨noColor, terminal, none⟩ source) := by
  cases hc : compile source with
  | ok p =>
    have hplan := Plan.ofJob_of_ok htask hc
    rw [runOn_of_ok hquiet noColor terminal (by rw [hplan]), hplan]
    have hwritten : ∀ q, compile source = .ok q → job.written p = job.written q :=
      fun q hq => congrArg job.written (Except.ok.inj (hc.symm.trans hq))
    exact
      { code := .inl rfl
        tokens := fun h => absurd h htask
        tree := fun _ => ⟨hwritten, by simp [hc], nofun⟩
        accepted := fun _ => rfl
        refused := nofun }
  | error e =>
    have hplan := Plan.ofJob_of_error htask hc
    rw [runOn_of_error hquiet noColor terminal (by rw [hplan]), hplan]
    have hnone : ∀ q, compile source ≠ .ok q := by simp [hc]
    exact
      { code := .inr rfl
        tokens := fun h => absurd h htask
        tree := fun _ => ⟨fun q hq => absurd hq (hnone q), by simp [hc], fun _ => rfl⟩
        accepted := nofun
        refused := fun _ => ⟨e, hc, rfl⟩ }

end Job

/-- A program without functions has no text. -/
theorem text_of_functions_eq_nil {p : Program} (h : p.functions = []) : p.text = "" := by
  unfold Program.text Program.lines
  rw [h]
  rfl

/-- Without a log, a job reports what the text of its file is. If writes to the output fail, it
reports the same if it writes nothing, and else only that. -/
theorem run_reports {job : Job} (hquiet : job.verbosity = 0) (noColor terminal : Bool)
    (source : String) :
    job.Reports (job.color.style ⟨noColor, terminal, none⟩) source
      (job.run ⟨noColor, terminal, none⟩ (decode source.toUTF8)) ∧
    (∀ text, job.run ⟨noColor, terminal, some text⟩ (decode source.toUTF8) =
      if (job.run ⟨noColor, terminal, none⟩ (decode source.toUTF8)).output = "" then
        job.run ⟨noColor, terminal, none⟩ (decode source.toUTF8)
      else ⟨1, "", s!"Error: {job.input}: {text}\n"⟩) ∧
    (job.task = .parse → job.form = .source → ∀ p, compile source = .ok p → p.functions = [] →
      ∀ writeError,
        job.run ⟨noColor, terminal, writeError⟩ (decode source.toUTF8) = ⟨0, "", ""⟩) := by
  have hrun (s : Surroundings) : job.run s (decode source.toUTF8) = job.runOn s source := by
    rw [decode_toUTF8, Job.run]
  simp only [hrun]
  refine ⟨?_, Job.runOn_of_writeError hquiet noColor terminal, ?_⟩
  · by_cases htask : job.task = .tokens
    · exact Job.reports_tokens hquiet htask noColor terminal
    · exact Job.reports_tree hquiet htask noColor terminal
  · intro htask hform p hp hnil writeError
    have htree : job.task ≠ .tokens := by simp [htask]
    have hplan := Plan.ofJob_of_ok htree hp
    have hwritten : job.written p = "" := by
      rw [Job.written, htask, hform]
      exact text_of_functions_eq_nil hnil
    have hresult : job.runOn ⟨noColor, terminal, none⟩ source = ⟨0, "", ""⟩ := by
      rw [Job.runOn_of_ok hquiet noColor terminal (by rw [hplan]), hplan, hwritten]
    cases writeError with
    | none => exact hresult
    | some text => rw [Job.runOn_of_writeError hquiet, hresult, if_pos rfl]

def strayFile : Except ReadError String :=
  decode "x @".toUTF8

/-- The name is written and the character is shown, unless the name cannot be written. A check of
the file has nothing to write, and on a terminal it shows the character in color. A program without
functions that is written as text has nothing to write either. -/
theorem run_reports_stray :
    let listed : Job := ⟨.tokens, "a", .outline, .never, 0⟩
    let checked : Job := ⟨.check, "a", .outline, .auto, 0⟩
    let printed : Job := ⟨.parse, "a", .source, .auto, 0⟩
    let broken := some "Broken pipe (os error 32)"
    listed.run ⟨false, true, none⟩ strayFile =
      ⟨1, "1:1-1:2 IDENTIFIER 'x'\n",
        "lexer: error: 1:3: Invalid character '@'\n   1 | x @\n         ^\n"⟩ ∧
    (∀ t ∈ (tokenize "x @").tokens, OneLine t.listing) ∧
    listed.run ⟨false, true, broken⟩ strayFile =
      ⟨1, "", "Error: a: Broken pipe (os error 32)\n"⟩ ∧
    checked.run ⟨false, true, broken⟩ strayFile =
      ⟨1, "", "\x1b[1mlexer:\x1b[0m \x1b[38;5;9m\x1b[1merror:\x1b[0m 1:3: " ++
        "\x1b[1mInvalid character '@'\x1b[0m\n   1 | x @\n         " ++
        "\x1b[38;5;10m\x1b[1m^\x1b[0m\n"⟩ ∧
    printed.run ⟨false, true, broken⟩ (decode "".toUTF8) = ⟨0, "", ""⟩ := by
  intro listed checked printed broken
  have hlisted : listed.run ⟨false, true, none⟩ strayFile =
      ⟨1, "1:1-1:2 IDENTIFIER 'x'\n",
        "lexer: error: 1:3: Invalid character '@'\n   1 | x @\n         ^\n"⟩ := by
    decide +kernel
  obtain ⟨hreports, hfails, -⟩ := run_reports (rfl : listed.verbosity = 0) false true "x @"
  obtain ⟨-, hchecks, -⟩ := run_reports (rfl : checked.verbosity = 0) false true "x @"
  obtain ⟨-, -, hprints⟩ := run_reports (rfl : printed.verbosity = 0) false true ""
  refine ⟨hlisted, (hreports.tokens rfl).2.1, ?_, ?_, hprints rfl rfl ⟨[]⟩ rfl rfl broken⟩
  · rw [strayFile] at hlisted ⊢
    rw [hfails, hlisted, if_neg (by decide)]
    decide
  · rw [strayFile, hchecks, if_pos (by decide +kernel)]
    decide +kernel

end BraceLang.Command
