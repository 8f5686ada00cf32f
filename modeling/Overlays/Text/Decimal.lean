import Overlays.Text.Numeral

set_option autoImplicit false
set_option relaxedAutoImplicit false

namespace Overlays.Text

open Numeral

/-- The number `significand * 10 ^ exponent`, with a sign. -/
structure Decimal where
  isNegative : Bool
  significand : Nat
  exponent : Int
deriving DecidableEq

/-- A magnitude in binary: `significand * 2 ^ exponent` with a significand of at most 53 digits, or a magnitude
too large for that. -/
inductive Binary where
  | finite (significand : Nat) (exponent : Int)
  | infinite
deriving DecidableEq

namespace Decimal

def isDigit (c : Char) : Bool := '0' ≤ c && c ≤ '9'

/-- The exponent behind a number: none, or the letter `e` with a whole number. -/
def exponent? : List Char → Option Int
  | [] => some 0
  | c :: cs => if c == 'e' || c == 'E' then Numeral.integer? 10 cs else none

/-- Digits with an optional point among, before or behind them, and an optional exponent. -/
def unsigned? (cs : List Char) : Option (Nat × Int) := do
  let whole := cs.takeWhile isDigit
  let (fraction, rest) := match cs.dropWhile isDigit with
    | '.' :: cs => (cs.takeWhile isDigit, cs.dropWhile isDigit)
    | cs => ([], cs)
  let significand ← Numeral.natural? 10 (whole ++ fraction)
  let exponent ← exponent? rest
  return (significand, exponent - fraction.length)

/-- Reads a decimal number with at most one sign. -/
def ofChars? (cs : List Char) : Option Decimal :=
  let (isNegative, body) := match cs with
    | '-' :: cs => (true, cs)
    | '+' :: cs => (false, cs)
    | cs => (false, cs)
  (unsigned? body).map fun (significand, exponent) => ⟨isNegative, significand, exponent⟩

/-- The quotient rounded to the nearest whole number, a half going to the even neighbour. -/
def roundHalfEven (num den : Nat) : Nat :=
  let q := num / den
  let r := 2 * (num % den)
  if r < den || (r == den && q % 2 == 0) then q else q + 1

/-- The position of the leading binary digit of a positive quotient. -/
def leadingBit (num den : Nat) : Int :=
  let guess : Int := num.log2 - den.log2
  let (n, d) := if 0 ≤ guess then (num, den * twoTo guess.toNat) else (num * twoTo (-guess).toNat, den)
  if n < d then guess - 1 else guess

/-- The nearest binary magnitude. Below `10 ^ -400` everything is zero and from `10 ^ 400` on all is too large. -/
def toBinary (x : Decimal) : Binary :=
  if x.significand = 0 then .finite 0 0
  else
    let size := (Nat.toDigits 10 x.significand).length + x.exponent
    if size < -400 then .finite 0 0
    else if 400 < size then .infinite
    else
      let num := x.significand * tenTo x.exponent.toNat
      let den := tenTo (-x.exponent).toNat
      let exponent := leadingBit num den - 52
      let exponent := if exponent < -1074 then -1074 else exponent
      let significand := roundHalfEven (num * twoTo (-exponent).toNat) (den * twoTo exponent.toNat)
      if twoTo (1024 - exponent).toNat ≤ significand then .infinite else .finite significand exponent

end Decimal

end Overlays.Text
