set_option autoImplicit false
set_option relaxedAutoImplicit false

namespace Overlays.Text.Numeral

/-- Two to the power of `n`. -/
def twoTo (n : Nat) : Nat := Nat.pow 2 n

/-- Ten to the power of `n`. -/
def tenTo (n : Nat) : Nat := Nat.pow 10 n

/-- The first number that a signed word of 32 bits is too small for. -/
def wordLimit : Nat := 2147483648

/-- A number as a signed word of 32 bits, if one holds it. -/
def word? (n : Int) : Option Int32 :=
  if -(wordLimit : Int) ≤ n ∧ n < wordLimit then some (Int32.ofInt n) else none

/-- The value of a digit or letter as a digit, with `a` to `z` in either case standing for 10 to 35. -/
def digitValue (c : Char) : Option Nat :=
  if '0' ≤ c ∧ c ≤ '9' then some (c.toNat - '0'.toNat)
  else if 'a' ≤ c ∧ c ≤ 'z' then some (c.toNat - 'a'.toNat + 10)
  else if 'A' ≤ c ∧ c ≤ 'Z' then some (c.toNat - 'A'.toNat + 10)
  else none

def digit? (base : Nat) (c : Char) : Option Nat :=
  (digitValue c).filter (· < base)

/-- Reads on from `acc`, each digit shifting what stands before it by one place. -/
def readDigits (base : Nat) : Nat → List Char → Option Nat
  | acc, [] => some acc
  | acc, c :: cs => (digit? base c).bind fun d => readDigits base (acc * base + d) cs

/-- The number written by one or more digits of the given base. -/
def natural? (base : Nat) : List Char → Option Nat
  | [] => none
  | c :: cs => readDigits base 0 (c :: cs)

/-- The number written by digits behind at most one sign. -/
def integer? (base : Nat) : List Char → Option Int
  | '-' :: cs => (natural? base cs).map fun n => -(n : Int)
  | '+' :: cs => (natural? base cs).map Int.ofNat
  | cs => (natural? base cs).map Int.ofNat

/-- The decimal digits of a natural number, without leading zeros. -/
def ofNat (n : Nat) : List Char := Nat.toDigits 10 n

/-- The decimal text of an integer, with a minus sign when it is negative. -/
def ofInt : Int → List Char
  | .ofNat n => ofNat n
  | .negSucc n => '-' :: ofNat (n + 1)

def natText (n : Nat) : String := String.ofList (ofNat n)

def intText (n : Int) : String := String.ofList (ofInt n)

end Overlays.Text.Numeral
