import BraceLang.Compile
import BraceLang.Text.Disarmed
import BraceLang.Text.Quoted

/-!
# The log

What the stages do can be followed as a list of events, each with a level of importance. Events are
read off the results: tokens from the tokenizer, productions from the steps of a parser.
-/

namespace BraceLang

inductive Level where
  | error
  | warn
  | info
  | debug
  | trace
deriving DecidableEq, Repr

namespace Level

def rank : Level → Nat
  | error => 0
  | warn => 1
  | info => 2
  | debug => 3
  | trace => 4

def name : Level → String
  | error => "error"
  | warn => "warn"
  | info => "info"
  | debug => "debug"
  | trace => "trace"

def ofName? (name : String) : Option Level :=
  [error, warn, info, debug, trace].find? fun l => l.name == name

def label : Level → String
  | error => "ERROR"
  | warn => " WARN"
  | info => " INFO"
  | debug => "DEBUG"
  | trace => "TRACE"

end Level

def Grammar.Production.label : Grammar.Production → String
  | program => "parse_program"
  | function => "parse_func_decl"
  | params => "parse_func_args"
  | statement => "parse_stmt"
  | block => "parse_compound_stmt"
  | expressionStatement => "parse_expr_stmt"
  | declaration => "parse_declaration"
  | forLoop => "parse_for_stmt"
  | forStart => "parse_for_init"
  | whileLoop => "parse_while_stmt"
  | conditional => "parse_if_stmt"
  | result => "parse_return_stmt"
  | expression => "parse_expression"
  | assignment => "parse_assignment"
  | equality => "parse_equality"
  | comparison => "parse_comparison"
  | sum => "parse_additive"
  | product => "parse_multiplicative"
  | unary => "parse_unary"
  | power => "parse_power"
  | atom => "parse_atom"
  | integer => "parse_int_literal"
  | float => "parse_float_literal"
  | string => "parse_string_literal"
  | index => "parse_array_ref"
  | call => "parse_func_call"

inductive Event where
  | sourceRead (name : String) (bytes : Nat)
  | tokenEmitted (token : Token)
  | tokenized (tokens errors : Nat)
  | entered (rule : Grammar.Production)
  | parsed (functions : Nat)
  | parseFailed (error : Grammar.SyntaxError)
  | compiled (tokens functions : Nat)
deriving Repr

namespace Event

def level : Event → Level
  | sourceRead .. => .debug
  | tokenEmitted _ => .trace
  | tokenized .. => .debug
  | entered _ => .trace
  | parsed _ => .debug
  | parseFailed _ => .debug
  | compiled .. => .info

def message : Event → String
  | sourceRead .. => "read source"
  | tokenEmitted _ => "emit token"
  | tokenized .. => "tokenized input"
  | entered rule => rule.label
  | parsed _ => "parsed program"
  | parseFailed e => s!"parse failed: {e.message}"
  | compiled .. => "parsed source"

/-- What an event tells besides its message: names with the texts of their values. -/
def fields : Event → List (String × String)
  | sourceRead name bytes => [("input", Text.quote name), ("bytes", toString bytes)]
  | tokenEmitted t =>
    [("kind", t.kind.label), ("lexeme", t.lexeme), ("line", toString t.start.line),
      ("column", toString t.start.column)]
  | tokenized tokens errors => [("tokens", toString tokens), ("errors", toString errors)]
  | entered _ => []
  | parsed functions => [("functions", toString functions)]
  | parseFailed e =>
    [("line", toString e.location.line), ("column", toString e.location.column)]
  | compiled tokens functions =>
    [("tokens", toString tokens), ("functions", toString functions)]

def line (e : Event) : String :=
  e.level.label ++ " " ++ Text.disarm e.message ++
    String.join (e.fields.map fun f => " " ++ f.1 ++ "=" ++ f.2)

end Event

/-- The lines of a log that shows a level and all more important ones. -/
def logLines (shown : Level) (events : List Event) : List String :=
  (events.filter fun e => e.level.rank ≤ shown.rank).map Event.line

def Lexed.events (lexed : Lexed) : List Event :=
  lexed.tokens.map .tokenEmitted ++ [.tokenized lexed.tokens.length lexed.errors.length]

namespace Grammar

def Step.event? : Step → Option Event
  | enter rule => some (.entered rule)
  | descend | ascend => none

def Outcome.events {α : Type} (o : Outcome α) : List Event :=
  o.steps.filterMap Step.event?

def parseEvents (tokens : List Token) : List Event :=
  (programParser maxNesting tokens).events ++
    match parseProgram tokens with
    | .ok program => [.parsed program.functions.length]
    | .error e => [.parseFailed e]

def expressionEvents (tokens : List Token) : List Event :=
  (expressionParser maxNesting tokens).events

def Session.events : Nat → Session → List Event
  | 0, _ => []
  | calls + 1, s => s.outcome.events ++ Session.events calls s.next

end Grammar

open Grammar in
def compileEvents (source : String) : List Event :=
  let lexed := tokenize source
  lexed.events ++
    if lexed.hadError then []
    else
      (programParser maxNesting lexed.tokens).events ++
        match parseProgram lexed.tokens with
        | .ok program => [.compiled lexed.tokens.length program.functions.length]
        | .error _ => []

end BraceLang
