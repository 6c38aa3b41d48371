import BraceLang.Chunk

/-!
# The tokens of a source text

`tokenize` places the chunks of a text one after another, keeps the tokens and notes what is wrong.
An error never stops it: every token of the text is there, and so is every error, both in the order
of the text.
-/

namespace BraceLang

structure LexicalError where
  fault : Fault
  location : Location
deriving DecidableEq, Repr

structure Lexed where
  tokens : List Token
  errors : List LexicalError
deriving DecidableEq, Repr

namespace Chunk

def points : Location → List Char → List Location
  | _, [] => []
  | p, c :: text => if c = '.' then p :: points (p.next c) text else points (p.next c) text

def token? (k : Chunk) (p : Location) : Option Token :=
  match k.shape with
  | .token kind => some ⟨kind, p, p.after k.text, String.ofList k.text⟩
  | _ => none

/-- A faulty chunk is one error, at its first character; each point of a number after its first
is one more. -/
def errors (k : Chunk) (p : Location) : List LexicalError :=
  match k.shape with
  | .fault fault => [⟨fault, p⟩]
  | .token .floatLiteral => (points p k.text).tail.map (⟨.extraPoint, ·⟩)
  | _ => []

end Chunk

namespace Lexed

def place : Location → List Chunk → Lexed
  | _, [] => ⟨[], []⟩
  | p, k :: rest =>
    let later := place (p.after k.text) rest
    ⟨(k.token? p).toList ++ later.tokens, k.errors p ++ later.errors⟩

def hadError (lexed : Lexed) : Bool :=
  !lexed.errors.isEmpty

end Lexed

def tokenize (source : String) : Lexed :=
  Lexed.place Location.origin (chunks source.toList)

end BraceLang
