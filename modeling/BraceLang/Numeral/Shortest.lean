import BraceLang.Numeral.Binary64

/-!
# Writing floating-point numbers

A finite number is written with the fewest digits that read back as the same number, and of those
with the digits nearest to it. On the grid of decimals with a given number of digits only the two
neighbours of the number have to be tried.
-/

namespace BraceLang.Numeral

def floorLogTen (num den : Nat) : Int :=
  if den ≤ num then (countDigits (num / den) : Int) - 1 else -(countDigits ((den - 1) / num) : Int)

namespace Binary64

/-- A positive finite magnitude `value / unit` with the ends of the interval of the numbers nearer
to it than to its neighbours, over the same unit. The ends belong to it when its last place is
even. -/
structure Rounding where
  value : Nat
  low : Nat
  high : Nat
  unit : Nat
  closed : Bool
deriving Repr

def rounding (magnitude : Nat) : Rounding :=
  let stored := magnitude % Nat.pow 2 52
  let place := magnitude / Nat.pow 2 52
  let m := if place = 0 then stored else stored + Nat.pow 2 52
  let q : Int := (if place = 0 then 1 else place : Nat) - 1077
  let below := if stored = 0 ∧ 1 < place then 1 else 2
  let scaled (n : Nat) := (scaleRatio n 1 q).1
  ⟨scaled (4 * m), scaled (4 * m - below), scaled (4 * m + 2), (scaleRatio 1 1 q).2, m % 2 = 0⟩

namespace Rounding

def holds (r : Rounding) (num den : Nat) : Bool :=
  if r.closed then r.low * den ≤ num * r.unit && num * r.unit ≤ r.high * den
  else r.low * den < num * r.unit && num * r.unit < r.high * den

/-- The decimal nearest to the number, on the grid of multiples of `10 ^ scale`, that reads back as
it; of two equally near, the greater. -/
def onGrid? (r : Rounding) (scale : Int) : Option Decimal :=
  let (ten, den) :=
    if 0 ≤ scale then (Nat.pow 10 scale.toNat, 1) else (1, Nat.pow 10 (-scale).toNat)
  let lower := r.value * den / (r.unit * ten)
  let twice := 2 * (r.value * den % (r.unit * ten))
  let holds (n : Nat) := r.holds (n * ten) den
  if holds lower && (twice < r.unit * ten || !holds (lower + 1)) then some ⟨lower, scale⟩
  else if holds (lower + 1) then some ⟨lower + 1, scale⟩
  else none

/-- Seventeen digits always suffice. -/
def shortest (r : Rounding) : Decimal :=
  let top := floorLogTen r.value r.unit
  ((List.range 17).findSome? fun (n : Nat) => r.onGrid? (top - n)).getD ⟨r.value / r.unit, 0⟩

end Rounding

/-- The significant digits of a decimal, without trailing zeros, and the exponent of the first. -/
def significant (x : Decimal) : List Char × Int :=
  let digits := Nat.toDigits 10 x.digits
  ((digits.reverse.dropWhile (· = '0')).reverse, x.scale + digits.length - 1)

def zeros (n : Nat) : List Char :=
  List.replicate n '0'

def positional (digits : List Char) (exponent : Int) : List Char :=
  if exponent < 0 then ['0', '.'] ++ zeros (-exponent - 1).toNat ++ digits
  else
    let n := exponent.toNat + 1
    let fraction := digits.drop n
    digits.take n ++ zeros (n - digits.length) ++ '.' :: if fraction = [] then ['0'] else fraction

def scientific (digits : List Char) (exponent : Int) : List Char :=
  let fraction := digits.drop 1
  digits.take 1 ++ (if fraction = [] then [] else '.' :: fraction) ++
    'e' :: (toString exponent).toList

/-- Positional from `0.0001` up to, but not including, `10 ^ 16`; zero is positional too. -/
def magnitudeText (magnitude : Nat) : List Char :=
  if magnitude = 0 then "0.0".toList
  else if magnitude = infinity then "inf".toList
  else
    let (digits, exponent) := significant (rounding magnitude).shortest
    if -4 ≤ exponent ∧ exponent < 16 then positional digits exponent
    else scientific digits exponent

def text (x : Binary64) : String :=
  if infinity < x.magnitude then "NaN"
  else String.ofList ((if x.negative then ['-'] else []) ++ magnitudeText x.magnitude)

end Binary64

end BraceLang.Numeral
