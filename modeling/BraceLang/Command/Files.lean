/-!
# Source files

A source text is a file in UTF-8. What a file system has to say about a file that it cannot give is
an error with the text that is shown to the user.
-/

namespace BraceLang.Command

inductive ReadError where
  | notFound
  | isDirectory
  | notDirectory
  | notUnicode
  | system (text : String)
deriving DecidableEq, Repr

def ReadError.text : ReadError → String
  | notFound => "No such file or directory (os error 2)"
  | isDirectory => "Is a directory (os error 21)"
  | notDirectory => "Not a directory (os error 20)"
  | notUnicode => "stream did not contain valid UTF-8"
  | system text => text

def decode (bytes : ByteArray) : Except ReadError String :=
  match String.fromUTF8? bytes with
  | some text => .ok text
  | none => .error .notUnicode

end BraceLang.Command
