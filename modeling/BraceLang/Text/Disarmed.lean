/-!
# Text without commands to a terminal

The controls that start or make up commands to a terminal are written as escapes, so that a text
cannot do more than be read. Line breaks and tabs stay.
-/

namespace BraceLang.Text

/-- The controls of ASCII that a terminal acts on: bell, backspace, form feed, escape, delete. -/
def isTerminalControl (c : Char) : Bool :=
  c = '\x07' || c = '\x08' || c = '\x0c' || c = '\x1b' || c = '\x7f'

def twoHexDigits (n : Nat) : List Char :=
  [Nat.digitChar (n / 16), Nat.digitChar (n % 16)]

def disarmChar (c : Char) : List Char :=
  if isTerminalControl c then '\\' :: 'x' :: twoHexDigits c.toNat
  else if '\x80' ≤ c ∧ c ≤ '\x9f' then
    "\\u\x7b".toList ++ twoHexDigits c.toNat ++ "\x7d".toList
  else [c]

def disarm (text : String) : String :=
  String.ofList (text.toList.flatMap disarmChar)

end BraceLang.Text
