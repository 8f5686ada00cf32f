import Overlays.Text.Decimal

set_option autoImplicit false
set_option relaxedAutoImplicit false

namespace Overlays.Text.Shortest

open Numeral

/-- The magnitudes that round to a given one: twice the magnitude and the two ends, as multiples of the same
power of two, and whether the ends belong to them. -/
structure Interval where
  lower : Nat
  middle : Nat
  upper : Nat
  exponent : Int
  isClosed : Bool

/-- The interval around `significand * 2 ^ exponent`; below a power of two it is half as wide. -/
def around (significand : Nat) (exponent : Int) : Interval :=
  let isNarrow := significand == twoTo 52 && exponent != -1074
  ⟨4 * significand - (if isNarrow then 1 else 2), 4 * significand, 4 * significand + 2, exponent - 2,
    significand % 2 == 0⟩

/-- Whether `n * 10 ^ place` lies in the interval. -/
def Interval.contains (i : Interval) (n : Nat) (place : Int) : Bool :=
  let scale (m : Nat) : Nat := m * twoTo i.exponent.toNat * tenTo (-place).toNat
  let point := n * tenTo place.toNat * twoTo (-i.exponent).toNat
  if i.isClosed then scale i.lower ≤ point && point ≤ scale i.upper
  else scale i.lower < point && point < scale i.upper

/-- The whole number of steps of `10 ^ place` below the middle, and whether the next one is nearer. -/
def Interval.below (i : Interval) (place : Int) : Nat × Bool :=
  let num := i.middle * twoTo i.exponent.toNat * tenTo (-place).toNat
  let den := twoTo (-i.exponent).toNat * tenTo place.toNat
  (num / den, den < 2 * (num % den))

/-- The nearest multiple of `10 ^ place` in the interval, if there is any. -/
def Interval.nearest? (i : Interval) (place : Int) : Option Nat :=
  let (n, isUpperNearer) := i.below place
  let (first, second) := if isUpperNearer then (n + 1, n) else (n, n + 1)
  if i.contains first place then some first
  else if i.contains second place then some second
  else none

/-- Tries places from left to right until a multiple lies in the interval. -/
def search (i : Interval) : Nat → Int → Nat × Int
  | 0, place => ((i.below place).1, place)
  | fuel + 1, place =>
    match i.nearest? place with
    | some n => (n, place)
    | none => search i fuel (place - 1)

/-- The digits of `n * 10 ^ place` with a point where one is needed. -/
def positional (n : Nat) (place : Int) : List Char :=
  let digits := Numeral.ofNat n
  if 0 ≤ place then digits ++ List.replicate place.toNat '0'
  else
    let decimals := (-place).toNat
    let digits := List.replicate (decimals + 1 - digits.length) '0' ++ digits
    digits.take (digits.length - decimals) ++ '.' :: digits.drop (digits.length - decimals)

def text (isNegative : Bool) (x : Binary) : String :=
  let body := match x with
    | .infinite => "inf".toList
    | .finite 0 _ => ['0']
    | .finite significand exponent =>
      let (n, place) := search (around significand exponent) 650 310
      positional n place
  String.ofList (if isNegative then '-' :: body else body)

end Overlays.Text.Shortest
