/-!
# The arguments of the command line

    [--color WHEN] [-v...] TASK [--color WHEN] [-v...] [--format FORM] FILE

Arguments are read from left to right. An option may stand before or after the task; given on both
sides, the one after the task counts. No option but `-v` may be given twice on one side. After `--`
nothing is an option. The word `help` in place of the task asks for help, on one task or on itself
if a name follows.
-/

namespace BraceLang.Command

inductive ColorChoice where
  | auto
  | always
  | never
deriving DecidableEq, Repr

def ColorChoice.ofName? : String → Option ColorChoice
  | "auto" => some .auto
  | "always" => some .always
  | "never" => some .never
  | _ => none

inductive TreeForm where
  | outline
  | source
deriving DecidableEq, Repr

def TreeForm.ofName? : String → Option TreeForm
  | "debug" => some .outline
  | "source" => some .source
  | _ => none

inductive Task where
  | tokens
  | parse
  | check
deriving DecidableEq, Repr

def Task.ofName? : String → Option Task
  | "tokens" => some .tokens
  | "parse" => some .parse
  | "check" => some .check
  | _ => none

structure Job where
  task : Task
  input : String
  form : TreeForm
  color : ColorChoice
  verbosity : Nat
deriving DecidableEq, Repr

inductive Stop where
  | help
  | version
  | refused
deriving DecidableEq, Repr

inductive Argument where
  | word (text : String)
  | short (letters : List Char)
  | long (name : String) (value : Option String)
  | endOfOptions
deriving DecidableEq, Repr

def Argument.ofText (text : String) : Argument :=
  match text.toList with
  | ['-', '-'] => .endOfOptions
  | '-' :: '-' :: rest =>
    let name := String.ofList (rest.takeWhile (· ≠ '='))
    match rest.dropWhile (· ≠ '=') with
    | _ :: value => .long name (some (String.ofList value))
    | [] => .long name none
  | '-' :: c :: letters => .short (c :: letters)
  | _ => .word text

structure Options where
  color : Option ColorChoice
  verbosity : Nat

inductive Waiting where
  | color
  | form
deriving DecidableEq

structure Progress where
  before : Options
  after : Options
  task : Option Task
  form : Option TreeForm
  input : Option String
  waiting : Option Waiting
  onlyWords : Bool
  helpOn : Option (List String)

namespace Progress

def start : Progress :=
  ⟨⟨none, 0⟩, ⟨none, 0⟩, none, none, none, none, false, none⟩

def options (p : Progress) : Options :=
  if p.task.isSome then p.after else p.before

def withOptions (p : Progress) (o : Options) : Progress :=
  if p.task.isSome then { p with after := o } else { p with before := o }

def setColor (p : Progress) (name : String) : Except Stop Progress :=
  match ColorChoice.ofName? name with
  | none => .error .refused
  | some color =>
    if p.options.color.isSome then .error .refused
    else .ok (p.withOptions { p.options with color := some color })

def setForm (p : Progress) (name : String) : Except Stop Progress :=
  match TreeForm.ofName? name with
  | none => .error .refused
  | some form => if p.form.isSome then .error .refused else .ok { p with form := some form }

def setValue (p : Progress) : Waiting → String → Except Stop Progress
  | .color, value => p.setColor value
  | .form, value => p.setForm value

def moreVerbose (p : Progress) : Progress :=
  p.withOptions { p.options with verbosity := p.options.verbosity + 1 }

/-- A name or a file: the first word is the task, the second its input. -/
def word (p : Progress) (text : String) : Except Stop Progress :=
  if p.task.isNone then
    if p.onlyWords then .error .refused
    else if text = "help" then .ok { p with helpOn := some [] }
    else
      match Task.ofName? text with
      | none => .error .refused
      | some task => .ok { p with task := some task }
  else if p.input.isSome then .error .refused
  else .ok { p with input := some text }

def letter (p : Progress) (c : Char) : Except Stop Progress :=
  if c = 'v' then .ok p.moreVerbose
  else if c = 'h' then .error .help
  else if c = 'V' ∧ p.task.isNone then .error .version
  else .error .refused

def long (p : Progress) (name : String) (value : Option String) : Except Stop Progress :=
  if name = "color" ∨ (name = "format" ∧ p.task = some .parse) then
    let option := if name = "color" then Waiting.color else .form
    match value with
    | some value => p.setValue option value
    | none => .ok { p with waiting := some option }
  else if value.isSome then .error .refused
  else if name = "verbose" then .ok p.moreVerbose
  else if name = "help" then .error .help
  else if name = "version" ∧ p.task.isNone then .error .version
  else .error .refused

def read (p : Progress) (text : String) : Except Stop Progress :=
  match p.helpOn, p.waiting with
  | some names, _ => .ok { p with helpOn := some (names ++ [text]) }
  | none, some option =>
    match Argument.ofText text with
    | .word value => { p with waiting := none }.setValue option value
    | _ => .error .refused
  | none, none =>
    if p.onlyWords then p.word text
    else
      match Argument.ofText text with
      | .endOfOptions => .ok { p with onlyWords := true }
      | .long name value => p.long name value
      | .short letters => letters.foldlM letter p
      | .word text => p.word text

def helpStop : List String → Stop
  | [] => .help
  | [name] => if name = "help" ∨ (Task.ofName? name).isSome then .help else .refused
  | _ => .refused

def finish (p : Progress) : Except Stop Job :=
  match p.helpOn, p.waiting, p.task, p.input with
  | some names, _, _, _ => .error (helpStop names)
  | none, none, some task, some input =>
    .ok
      { task := task
        input := input
        form := p.form.getD .outline
        color := (p.after.color.or p.before.color).getD .auto
        verbosity := if p.after.verbosity = 0 then p.before.verbosity else p.after.verbosity }
  | _, _, _, _ => .error .refused

end Progress

def Job.ofArguments (arguments : List String) : Except Stop Job := do
  let progress ← arguments.foldlM Progress.read Progress.start
  progress.finish

end BraceLang.Command
