import BraceLang.Command.Arguments
import BraceLang.Command.Files
import BraceLang.Diagnostic.Display
import BraceLang.Log
import BraceLang.Tree.Outline
import BraceLang.Tree.Printed

/-!
# Running a command

A task turns a source text into an output and a verdict. The output of `tokens` is there even if the
text has lexical errors; `parse` and `check` have none unless the text is a program. Diagnostics go
to the error stream and are shown with the lines of the text that was read.
-/

namespace BraceLang.Command

structure Plan where
  events : List Event
  output : String
  verdict : Except CompileError Unit

namespace Plan

def tokens (source : String) : Plan :=
  let lexed := tokenize source
  { events := lexed.events
    output := String.join (lexed.tokens.map fun t => t.listing ++ "\n")
    verdict := if lexed.hadError then .error (.lexical lexed.diagnostics) else .ok () }

def compiled (write : Program → String) (source : String) : Plan :=
  let events := compileEvents source
  match compile source with
  | .ok program => ⟨events, write program, .ok ()⟩
  | .error e => ⟨events, "", .error e⟩

def ofJob (job : Job) : String → Plan :=
  match job.task, job.form with
  | .tokens, _ => tokens
  | .parse, .outline => compiled fun program => program.outline.text ++ "\n"
  | .parse, .source => compiled Program.text
  | .check, _ => compiled fun _ => "ok\n"

end Plan

structure Result where
  code : Nat
  output : String
  errors : String
deriving DecidableEq, Repr

/-- What surrounds a run: whether colors are unwanted, whether the error stream is a terminal, and
the text of the error with which every write to the output fails, if writes fail. -/
structure Surroundings where
  noColor : Bool
  terminal : Bool
  writeError : Option String

def shownLevel : Nat → Level
  | 0 => .warn
  | 1 => .info
  | 2 => .debug
  | _ => .trace

/-- Whether marks are shown. Without a wish they are shown on a terminal. -/
def ColorChoice.marks (terminal : Bool) : ColorChoice → Bool
  | auto => terminal
  | always => true
  | never => false

def ColorChoice.style (c : ColorChoice) (s : Surroundings) : Style :=
  if c.marks s.terminal then if s.noColor then .colorless else .colored else .plain

namespace Job

def complaint (job : Job) (text : String) : String :=
  s!"Error: {job.input}: {text}\n"

def report (job : Job) (s : Surroundings) (source : String) : CompileError → String
  | .system text => job.complaint text
  | e => displayAll (job.color.style s) (some source) e.diagnostics

/-- Nothing is written of an empty output, so it cannot fail. -/
def runOn (job : Job) (s : Surroundings) (source : String) : Result :=
  let plan := Plan.ofJob job source
  let events := .sourceRead job.input source.utf8ByteSize :: plan.events
  let log := String.join ((logLines (shownLevel job.verbosity) events).map (· ++ "\n"))
  let (output, verdict) :=
    match s.writeError with
    | some text => if plan.output = "" then ("", plan.verdict) else ("", .error (.system text))
    | none => (plan.output, plan.verdict)
  match verdict with
  | .ok () => ⟨0, output, log⟩
  | .error e => ⟨1, output, log ++ job.report s source e⟩

def run (job : Job) (s : Surroundings) (source : Except ReadError String) : Result :=
  match source with
  | .ok source => job.runOn s source
  | .error e => ⟨1, "", job.complaint e.text⟩

end Job

/-- The texts that explain the arguments are left out. -/
def Stop.result (s : Surroundings) : Stop → Result
  | help => ⟨0, "", ""⟩
  | version => ⟨0, if s.writeError.isSome then "" else "minic 0.1.0\n", ""⟩
  | refused => ⟨2, "", ""⟩

def run (arguments : List String) (s : Surroundings) (read : String → Except ReadError String) :
    Result :=
  match Job.ofArguments arguments with
  | .ok job => job.run s (read job.input)
  | .error stop => stop.result s

end BraceLang.Command
