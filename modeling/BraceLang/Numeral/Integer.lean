/-!
# Reading integers

An integer is written as an optional sign and one or more decimal digits of ASCII. A word of 64
bits holds those from `-2 ^ 63` to `2 ^ 63 - 1`; the others are refused, never wrapped.
-/

namespace BraceLang.Numeral

def digitsValue (digits : List Char) : Nat :=
  digits.foldl (fun n c => 10 * n + (c.toNat - '0'.toNat)) 0

def readNatural? (text : List Char) : Option Nat :=
  if text ≠ [] ∧ text.all Char.isDigit then some (digitsValue text) else none

def readSigned? : List Char → Option Int
  | '+' :: digits => (readNatural? digits).map Int.ofNat
  | '-' :: digits => (readNatural? digits).map fun n => -Int.ofNat n
  | digits => (readNatural? digits).map Int.ofNat

def FitsWord (n : Int) : Prop :=
  -Int.pow 2 63 ≤ n ∧ n ≤ Int.pow 2 63 - 1

instance (n : Int) : Decidable (FitsWord n) :=
  inferInstanceAs (Decidable (_ ∧ _))

def readInteger? (text : List Char) : Option Int :=
  (readSigned? text).filter fun n => FitsWord n

end BraceLang.Numeral
