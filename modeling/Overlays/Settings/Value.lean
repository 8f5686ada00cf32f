import Overlays.Text.Lowercase
import Overlays.Text.Quoted
import Overlays.Text.Shortest
import Overlays.Yaml.Node
import Overlays.Yaml.Plain

/-!
Values in a settings document, and how freely each kind of setting takes them: numbers, truth values and texts are
turned into each other wherever one of them can be meant.
-/

set_option autoImplicit false
set_option relaxedAutoImplicit false

namespace Overlays.Settings

open Text Yaml

/-- A value in a settings document. No setting is a list or a table, so what is in one is not kept. -/
inductive Value where
  | nothing
  | truth (b : Bool)
  | whole (n : Int)
  | decimal (text : String)
  | text (s : String)
  | list
  | table
deriving DecidableEq, Inhabited

namespace Value

/-- The nearest number of 64 bits. -/
def clamp (n : Int) : Int :=
  if n < -9223372036854775808 then -9223372036854775808
  else if 9223372036854775807 < n then 9223372036854775807
  else n

def whole64? (base : Nat) (cs : List Char) : Option Int :=
  (Numeral.integer? base cs).filter fun n => clamp n = n

/-- A whole number behind a mark: `0x` for base sixteen, `0o` for base eight, or a plus sign. -/
def marked? : List Char → Option Int
  | '0' :: 'x' :: cs => whole64? 16 cs
  | '0' :: 'o' :: cs => whole64? 8 cs
  | '+' :: cs => whole64? 10 cs
  | _ => none

/-- Whether a text is a decimal number, or one of the words for the infinities and for no number. -/
def isDecimal (s : String) : Bool :=
  [".nan", ".NaN", ".NAN"].contains s
    || [".inf", ".Inf", ".INF"].contains (String.ofList (Plain.unsigned s.toList))
    || (Decimal.ofChars? s.toList).isSome

def ofPlain (s : String) : Value :=
  match marked? s.toList with
  | some n => .whole n
  | none =>
    if s = "" ∨ s = "~" ∨ s = "null" then .nothing
    else match Plain.bool? s with
      | some b => .truth b
      | none =>
        match whole64? 10 s.toList with
        | some n => .whole n
        | none => if isDecimal s then .decimal s else .text s

/-- The value of a plain scalar under a tag. A tag that does not suit leaves nothing. -/
def ofTagged (tag s : String) : Value :=
  if tag = Plain.nullTag then .nothing
  else if tag = Plain.boolTag then
    if s = "true" then .truth true else if s = "false" then .truth false else .nothing
  else if tag = Plain.intTag then ((whole64? 10 s.toList).map Value.whole).getD .nothing
  else if tag = Plain.floatTag then if isDecimal s then .decimal s else .nothing
  else .text s

def ofScalar (s : String) : Style → Option String → Value
  | .plain, none => ofPlain s
  | .plain, some tag => ofTagged tag s
  | _, _ => .text s

/-- The number of a decimal, with its sign apart; the words for the infinities have none. -/
def number? (s : String) : Option (Bool × Binary) :=
  (Decimal.ofChars? s.toList).map fun x => (x.isNegative, x.toBinary)

/-- A value that can be kept: every decimal must be a number. -/
def kept? : Value → Option Value
  | .decimal s => (number? s).map fun _ => .decimal s
  | v => some v

/-- The name that a value stands for as the key of an entry. -/
def name? : Value → Option String
  | .text s => some s
  | .decimal s => some s
  | .whole n => some (Numeral.intText n)
  | .truth b => some (if b then "true" else "false")
  | .nothing | .list | .table => none

/-- The nearest whole number of 64 bits, a half going away from zero. -/
def rounded (isNegative : Bool) (x : Binary) : Int :=
  let sign (n : Int) : Int := clamp (if isNegative then -n else n)
  match x with
  | .infinite => sign 9223372036854775808
  | .finite significand exponent =>
    let den := Numeral.twoTo (-exponent).toNat
    sign ((2 * (significand * Numeral.twoTo exponent.toNat) + den) / (2 * den) : Nat)

def text? : Value → Option String
  | .text s => some s
  | .truth b => some (if b then "true" else "false")
  | .whole n => some (Numeral.intText n)
  | .decimal s => (number? s).map fun x => Shortest.text x.1 x.2
  | .nothing | .list | .table => none

def truthOfWord? (word : String) : Option Bool :=
  if ["true", "on", "yes"].contains word then some true
  else if ["false", "off", "no"].contains word then some false
  else none

def whole? : Value → Option Int
  | .whole n => some n
  | .truth b => some (if b then 1 else 0)
  | .decimal s => (number? s).map fun x => rounded x.1 x.2
  | .text s =>
    match truthOfWord? (Lowercase.text s) with
    | some b => some (if b then 1 else 0)
    | none => whole64? 10 s.toList
  | .nothing | .list | .table => none

def truth? : Value → Option Bool
  | .truth b => some b
  | .whole n => some (n != 0)
  | .decimal s => (number? s).map fun x => match x.2 with
    | .finite significand _ => significand != 0
    | .infinite => true
  | .text s =>
    let word := Lowercase.text s
    if word = "1" then some true else if word = "0" then some false else truthOfWord? word
  | .nothing | .list | .table => none

def words : Value → String
  | .nothing => "unit value"
  | .truth b => "boolean `" ++ (if b then "true" else "false") ++ "`"
  | .whole n => "64-bit integer `" ++ Numeral.intText n ++ "`"
  | .decimal s => "floating point `" ++ s ++ "`"
  | .text s => "string " ++ Quoted.text s
  | .list => "sequence"
  | .table => "map"

end Value

end Overlays.Settings
