import Overlays.Text.Numeral
import Overlays.Text.Utf16

/-!
The words a parcel is made of, the layout of a string inside one, and what can be wrong with a parcel.
Every value is little-endian and fills a multiple of four bytes.
-/

set_option autoImplicit false
set_option relaxedAutoImplicit false

namespace Overlays.Parcel

open Text

/-- What is wrong with a parcel; offsets and lengths count bytes from its start. -/
inductive ParcelError where
  | unexpectedEnd (offset needed remaining : Nat)
  | negativeCount (count : Int32)
  | invalidStringLength (offset : Nat) (length : Int32)
  | nullString (offset : Nat)
  | missingTerminator (offset : Nat)
  | nonZeroPadding (offset : Nat)
  | invalidUtf16 (offset : Nat)
  | emptyPackageName (index : Nat)
  | trailingBytes (count : Nat)
  | tooLarge (what : String) (length : Nat)
deriving DecidableEq

def ParcelError.message : ParcelError → String
  | .unexpectedEnd offset needed remaining =>
    "unexpected end of parcel at offset " ++ Numeral.natText offset ++ ": needed "
      ++ Numeral.natText needed ++ " byte(s), " ++ Numeral.natText remaining ++ " left"
  | .negativeCount count => "negative request count " ++ Numeral.intText count.toInt
  | .invalidStringLength offset length =>
    "invalid string length " ++ Numeral.intText length.toInt ++ " at offset " ++ Numeral.natText offset
  | .nullString offset =>
    "null string at offset " ++ Numeral.natText offset ++ " where a package name was expected"
  | .missingTerminator offset => "string at offset " ++ Numeral.natText offset ++ " is not terminated"
  | .nonZeroPadding offset => "string at offset " ++ Numeral.natText offset ++ " has non-zero padding"
  | .invalidUtf16 offset => "string at offset " ++ Numeral.natText offset ++ " is not valid UTF-16"
  | .emptyPackageName index => "empty package name in request " ++ Numeral.natText index
  | .trailingBytes count => Numeral.natText count ++ " trailing byte(s) after the transaction"
  | .tooLarge what length =>
    what ++ " does not fit in a 32-bit length (" ++ Numeral.natText length ++ ")"

/-- The bytes of a word, least significant first. -/
def wordBytes (w : Int32) : List UInt8 :=
  let n := w.toUInt32.toNat
  [UInt8.ofNat n, UInt8.ofNat (n / 0x100), UInt8.ofNat (n / 0x10000), UInt8.ofNat (n / 0x1000000)]

/-- The word of four bytes, least significant first. -/
def wordOfBytes (b₀ b₁ b₂ b₃ : UInt8) : Int32 :=
  (UInt32.ofNat (b₀.toNat + b₁.toNat * 0x100 + b₂.toNat * 0x10000 + b₃.toNat * 0x1000000)).toInt32

/-- The bytes of a code unit, least significant first. -/
def unitBytes (u : UInt16) : List UInt8 :=
  [UInt8.ofNat u.toNat, UInt8.ofNat (u.toNat / 0x100)]

/-- The code units of a list of bytes, two bytes each; a last odd byte is dropped. -/
def unitsOfBytes : List UInt8 → List UInt16
  | b₀ :: b₁ :: bs => UInt16.ofNat (b₀.toNat + b₁.toNat * 0x100) :: unitsOfBytes bs
  | _ => []

/-- The least multiple of four that is at least `n`. -/
def roundUp (n : Nat) : Nat := (n + 3) / 4 * 4

end Overlays.Parcel
