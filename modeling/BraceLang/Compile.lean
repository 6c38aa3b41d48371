import BraceLang.Grammar.Session

/-!
# From a source text to a program

A text with lexical errors is not parsed at all.
-/

namespace BraceLang

open Grammar (SyntaxError parseProgram)

inductive CompileError where
  | lexical (diagnostics : List Diagnostic)
  | syntactic (error : SyntaxError)
  | system (text : String)
deriving DecidableEq, Repr

namespace CompileError

def message : CompileError → String
  | lexical diagnostics => s!"{diagnostics.length} lexical error(s)"
  | syntactic e => s!"Syntax error at {e.location.text}: {e.message}"
  | system text => s!"IO error: {text}"

/-- What to show the user. A failure of the system stands nowhere in a source text. -/
def diagnostics : CompileError → List Diagnostic
  | lexical ds => ds
  | syntactic e => [e.diagnostic]
  | system _ => []

end CompileError

def compile (source : String) : Except CompileError Program :=
  let lexed := tokenize source
  if lexed.hadError then .error (.lexical lexed.diagnostics)
  else (parseProgram lexed.tokens).mapError .syntactic

theorem compile_of_errors_eq_nil {source : String} (h : (tokenize source).errors = []) :
    compile source = (parseProgram (tokenize source).tokens).mapError .syntactic := by
  have herror : (tokenize source).hadError = false := by simp [Lexed.hadError, h]
  unfold compile
  simp only [herror, Bool.false_eq_true, if_false]

theorem compile_of_errors_ne_nil {source : String} (h : (tokenize source).errors ≠ []) :
    compile source = .error (.lexical (tokenize source).diagnostics) := by
  have herror : (tokenize source).hadError = true := by simp [Lexed.hadError, h]
  unfold compile
  simp only [herror, if_true]

theorem compile_of_ok {source : String} {p : Program} (h : (tokenize source).errors = [])
    (hp : parseProgram (tokenize source).tokens = .ok p) : compile source = .ok p := by
  rw [compile_of_errors_eq_nil h, hp]
  rfl

theorem compile_of_error {source : String} {e : SyntaxError} (h : (tokenize source).errors = [])
    (he : parseProgram (tokenize source).tokens = .error e) :
    compile source = .error (.syntactic e) := by
  rw [compile_of_errors_eq_nil h, he]
  rfl

theorem compile_ok_iff {source : String} {p : Program} : compile source = .ok p ↔
    (tokenize source).errors = [] ∧ parseProgram (tokenize source).tokens = .ok p := by
  by_cases h : (tokenize source).errors = []
  · cases hp : parseProgram (tokenize source).tokens with
    | ok q => simp [compile_of_ok h hp, h]
    | error e => simp [compile_of_error h hp, h]
  · rw [compile_of_errors_ne_nil h]
    simp [h]

theorem compile_lexical_iff {source : String} {ds : List Diagnostic} :
    compile source = .error (.lexical ds) ↔
      (tokenize source).errors ≠ [] ∧ ds = (tokenize source).diagnostics := by
  by_cases h : (tokenize source).errors = []
  · cases hp : parseProgram (tokenize source).tokens with
    | ok q => simp [compile_of_ok h hp, h]
    | error e => simp [compile_of_error h hp, h]
  · rw [compile_of_errors_ne_nil h]
    simp [h, eq_comm]

theorem compile_syntactic_iff {source : String} {e : SyntaxError} :
    compile source = .error (.syntactic e) ↔
      (tokenize source).errors = [] ∧ parseProgram (tokenize source).tokens = .error e := by
  by_cases h : (tokenize source).errors = []
  · cases hp : parseProgram (tokenize source).tokens with
    | ok q => simp [compile_of_ok h hp, h]
    | error e' => simp [compile_of_error h hp, h]
  · rw [compile_of_errors_ne_nil h]
    simp [h]

/-- What is computed from the program of a source shows that there is one. -/
theorem exists_of_map_toOption {β : Type} {f : Program → β} {source : String} {b : β}
    (h : (compile source).toOption.map f = some b) : ∃ p, compile source = .ok p ∧ f p = b := by
  cases hp : compile source with
  | error e => simp [hp, Except.toOption] at h
  | ok p => exact ⟨p, rfl, by simpa [hp, Except.toOption] using h⟩

def compileError? (source : String) : Option CompileError :=
  match compile source with
  | .ok _ => none
  | .error e => some e

theorem compile_of_compileError? {source : String} {e : CompileError}
    (h : compileError? source = some e) : compile source = .error e := by
  unfold compileError? at h
  cases hc : compile source with
  | ok p => simp [hc] at h
  | error e' => simpa [hc] using h

end BraceLang
