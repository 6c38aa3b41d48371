import BraceLang.Numeral.Integer

/-!
# Floating-point numbers of 64 bits

A decimal numeral stands for the binary number nearest to it, the one with an even last place if
two are equally near. A magnitude is kept as the bits below the sign: read as a natural number they
count the representable magnitudes in increasing order, infinity being the first that is not finite.
So rounding a ratio to `m * 2 ^ q` gives `(q + 1074) * 2 ^ 52 + m`, in normal, subnormal and carry
cases alike.
-/

namespace BraceLang.Numeral

structure Binary64 where
  bits : UInt64
deriving DecidableEq, Repr

structure Decimal where
  digits : Nat
  scale : Int
deriving DecidableEq, Repr

/-- The quotient of two numbers to the nearest integer, a half to the even neighbour. -/
def roundHalfEven (num den : Nat) : Nat :=
  let whole := num / den
  let twice := 2 * (num % den)
  if den < twice ∨ (twice = den ∧ whole % 2 = 1) then whole + 1 else whole

/-- The ratio `num / den * 2 ^ e` as a pair of natural numbers. -/
def scaleRatio (num den : Nat) (e : Int) : Nat × Nat :=
  if 0 ≤ e then (num * Nat.pow 2 e.toNat, den) else (num, den * Nat.pow 2 (-e).toNat)

/-- The exponent of the greatest power of two that is at most `num / den`. -/
def floorLogTwo (num den : Nat) : Int :=
  let guess := (num.log2 : Int) - den.log2
  let (n, d) := scaleRatio num den (-guess)
  if n < d then guess - 1 else guess

def countDigits (n : Nat) : Nat :=
  (Nat.toDigits 10 n).length

namespace Binary64

def infinity : Nat := 0x7ff * Nat.pow 2 52

def ofMagnitude (negative : Bool) (magnitude : Nat) : Binary64 :=
  ⟨.ofNat (if negative then Nat.pow 2 63 + magnitude else magnitude)⟩

def negative (x : Binary64) : Bool :=
  Nat.pow 2 63 ≤ x.bits.toNat

def magnitude (x : Binary64) : Nat :=
  x.bits.toNat % Nat.pow 2 63

def roundRatio (num den : Nat) : Nat :=
  if num = 0 then 0
  else
    let q := max (floorLogTwo num den - 52) (-1074)
    let (n, d) := scaleRatio num den (-q)
    min ((q + 1074).toNat * Nat.pow 2 52 + roundHalfEven n d) infinity

/-- The magnitude nearest to a decimal. Beyond `10 ^ 309` all is infinite and below `10 ^ (-324)`
all is zero, so no greater power of ten is ever formed. -/
def roundDecimal (x : Decimal) : Nat :=
  let size : Int := countDigits x.digits + x.scale
  if x.digits = 0 ∨ size ≤ -324 then 0
  else if 310 ≤ size then infinity
  else if 0 ≤ x.scale then roundRatio (x.digits * Nat.pow 10 x.scale.toNat) 1
  else roundRatio x.digits (Nat.pow 10 (-x.scale).toNat)

def quietNaN : Nat := infinity + Nat.pow 2 51

def readExponent? : List Char → Option Int
  | [] => some 0
  | c :: digits => if c = 'e' ∨ c = 'E' then readSigned? digits else none

/-- Digits with at most one point among or beside them, then an optional exponent. -/
def readDecimal? (text : List Char) : Option Decimal :=
  let whole := text.takeWhile Char.isDigit
  let (fraction, rest) :=
    match text.dropWhile Char.isDigit with
    | '.' :: rest => rest.span Char.isDigit
    | rest => ([], rest)
  if whole = [] ∧ fraction = [] then none
  else
    (readExponent? rest).map fun e => ⟨digitsValue (whole ++ fraction), e - fraction.length⟩

/-- The names of infinity and of what is no number, in any mixture of cases. -/
def readName? (text : List Char) : Option Nat :=
  let name := String.ofList (text.map Char.toLower)
  if name = "inf" ∨ name = "infinity" then some infinity
  else if name = "nan" then some quietNaN
  else none

def readMagnitude? (text : List Char) : Option Nat :=
  match readDecimal? text with
  | some x => some (roundDecimal x)
  | none => readName? text

def read? : List Char → Option Binary64
  | '+' :: text => (readMagnitude? text).map (ofMagnitude false)
  | '-' :: text => (readMagnitude? text).map (ofMagnitude true)
  | text => (readMagnitude? text).map (ofMagnitude false)

def hex (x : Binary64) : String :=
  let digits := Nat.toDigits 16 x.bits.toNat
  String.ofList (List.replicate (16 - digits.length) '0' ++ digits)

end Binary64

end BraceLang.Numeral
