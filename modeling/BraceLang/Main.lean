import BraceLang.Command.Run

/-!
# The command

Reads the file that the arguments name, and writes the output before the error stream, because a
failure to write is reported there.
-/

open BraceLang.Command

def readErrorOf : IO.Error → ReadError
  | .noFileOrDirectory .. => .notFound
  | .inappropriateType _ 21 _ => .isDirectory
  | .inappropriateType .. => .notDirectory
  | e => .system (toString e)

def readSource (name : String) : IO (Except ReadError String) := do
  try
    return decode (← IO.FS.readBinFile name)
  catch e =>
    return .error (readErrorOf e)

def writeErrorText : IO.Error → String
  | .resourceExhausted _ 28 _ => "No space left on device (os error 28)"
  | e => toString e

/-- Writes the output, and gives the text of the error if that fails. -/
def writeOutput (text : String) : IO (Option String) := do
  try
    let output ← IO.getStdout
    output.putStr text
    output.flush
    return none
  catch e =>
    return some (writeErrorText e)

def main (arguments : List String) : IO UInt32 := do
  let noColor := ((← IO.getEnv "NO_COLOR").getD "") ≠ ""
  let terminal ← (← IO.getStderr).isTty
  let source ←
    match Job.ofArguments arguments with
    | .ok job => readSource job.input
    | .error _ => pure (.error .notFound)
  let planned := run arguments ⟨noColor, terminal, none⟩ fun _ => source
  let failure ← if planned.output = "" then pure none else writeOutput planned.output
  let result := run arguments ⟨noColor, terminal, failure⟩ fun _ => source
  (← IO.getStderr).putStr result.errors
  return UInt32.ofNat result.code
