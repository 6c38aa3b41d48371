import BraceLang.Diagnostic

/-!
# Diagnostics on a terminal

A diagnostic is shown as a header, the line of the source text that it points at, and a caret under
the column. A source text has one line more than it has newlines, save for an empty line at the very
end; a carriage return before a newline belongs to the line break.
-/

namespace BraceLang

def sourceLines : List Char → List (List Char)
  | [] => []
  | c :: rest =>
    if c = '\n' then [] :: sourceLines rest
    else if c = '\r' ∧ rest.head? = some '\n' then sourceLines rest
    else
      match sourceLines rest with
      | [] => [[c]]
      | line :: lines => (c :: line) :: lines

/-- What is written before marked text of three sorts, and what after it. -/
structure Style where
  strong : String
  alarm : String
  pointer : String
  stop : String
deriving DecidableEq, Repr

namespace Style

def plain : Style := ⟨"", "", "", ""⟩

def command (parameters : String) : String :=
  "\x1b[" ++ parameters ++ "m"

def bold : String := command "1"

def colored : Style :=
  ⟨bold, command "38;5;9" ++ bold, command "38;5;10" ++ bold, command "0"⟩

/-- Bold text; the colors are left out of their commands. -/
def colorless : Style :=
  ⟨bold, command "" ++ bold, command "" ++ bold, command "0"⟩

end Style

namespace Diagnostic

def header (style : Style) (d : Diagnostic) : String :=
  style.strong ++ d.stage.label ++ ":" ++ style.stop ++ " " ++ style.alarm ++ "error:" ++
    style.stop ++ " " ++ d.location.text ++ ": " ++ style.strong ++ d.message ++ style.stop

/-- Without marks a header is the text of its diagnostic. -/
theorem header_plain (d : Diagnostic) : d.header .plain = d.text := by
  simp only [header, text, Style.plain, String.append_assoc, String.empty_append,
    String.append_empty]
  rfl

/-- The number of the line, in at least four columns. -/
def gutter (d : Diagnostic) : String :=
  let number := toString d.location.line
  String.ofList (List.replicate (4 - number.length) ' ') ++ number ++ " | "

def sourceLine? (source : String) (d : Diagnostic) : Option (List Char) :=
  (sourceLines source.toList)[d.location.line - 1]?

/-- Spaces up to the column, or to the end of the line if it is shorter, and a caret. -/
def caret (style : Style) (d : Diagnostic) (line : List Char) : String :=
  let indent := d.gutter.length + min (d.location.column - 1) line.length
  String.ofList (List.replicate indent ' ') ++ style.pointer ++ "^" ++ style.stop

def displayLines (style : Style) (source : Option String) (d : Diagnostic) : List String :=
  d.header style ::
    match source.bind d.sourceLine? with
    | none => []
    | some line => [d.gutter ++ String.ofList line, d.caret style line]

theorem displayLines_plain (source : Option String) (d : Diagnostic) :
    d.displayLines .plain source = d.text ::
      match source.bind d.sourceLine? with
      | none => []
      | some line => [d.gutter ++ String.ofList line, d.caret .plain line] := by
  rw [displayLines, header_plain]

end Diagnostic

def displayAll (style : Style) (source : Option String) (ds : List Diagnostic) : String :=
  String.join ((ds.flatMap (Diagnostic.displayLines style source)).map (· ++ "\n"))

end BraceLang
