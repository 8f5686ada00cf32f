import Overlays.Text.Decimal
import Overlays.Yaml.Token

set_option autoImplicit false
set_option relaxedAutoImplicit false

namespace Overlays.Yaml.Plain

open Text

def nullTag : String := "tag:yaml.org,2002:null"

def boolTag : String := "tag:yaml.org,2002:bool"

def intTag : String := "tag:yaml.org,2002:int"

def floatTag : String := "tag:yaml.org,2002:float"

def isNull (s : String) : Bool := s == "null" || s == "Null" || s == "NULL" || s == "~"

def bool? (s : String) : Option Bool :=
  if s == "true" || s == "True" || s == "TRUE" then some true
  else if s == "false" || s == "False" || s == "FALSE" then some false
  else none

/-- Whether digits begin with a zero that has further digits behind it. -/
def hasLeadingZero : List Char → Bool
  | '0' :: c :: cs => (c :: cs).all Decimal.isDigit
  | _ => false

/-- A number without sign: in base sixteen, eight or two behind `0x`, `0o` or `0b`, else in base ten. -/
def magnitude? : List Char → Option Nat
  | '0' :: 'x' :: cs => Numeral.natural? 16 cs
  | '0' :: 'o' :: cs => Numeral.natural? 8 cs
  | '0' :: 'b' :: cs => Numeral.natural? 2 cs
  | cs => if hasLeadingZero cs then none else Numeral.natural? 10 cs

/-- A whole number with at most one sign. -/
def integer? : List Char → Option Int
  | '-' :: cs => (magnitude? cs).map fun n => -(n : Int)
  | '+' :: cs => (magnitude? cs).map Int.ofNat
  | cs => (magnitude? cs).map Int.ofNat

/-- A text without its sign. -/
def unsigned : List Char → List Char
  | '-' :: cs => cs
  | '+' :: cs => cs
  | cs => cs

/-- Whether a text is a decimal number of a size that 53 binary digits can hold, or one of the words for the
infinities and for no number. -/
def isDecimal (s : String) : Bool :=
  [".nan", ".NaN", ".NAN"].contains s
    || [".inf", ".Inf", ".INF"].contains (String.ofList (unsigned s.toList))
    || match Decimal.ofChars? s.toList with
      | some x => x.toBinary != .infinite
      | none => false

/-- Whether a text would be read as something other than a text if it were written plainly. Whole numbers count
as far as 128 binary digits hold them. -/
def isAmbiguous (s : String) : Bool :=
  s.isEmpty || isNull s || (bool? s).isSome
    || (match integer? s.toList with
      | some n => -(Numeral.twoTo 127 : Int) ≤ n && n < Numeral.twoTo 128
      | none => false)
    || hasLeadingZero (unsigned s.toList) || isDecimal s

end Overlays.Yaml.Plain
