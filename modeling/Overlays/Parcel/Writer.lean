import Overlays.Parcel.Basic

set_option autoImplicit false
set_option relaxedAutoImplicit false

namespace Overlays.Parcel

open Text

/-- The bytes of `count` as a word, unless a signed word is too small for it. -/
def countBytes (what : String) (count : Nat) : Except ParcelError (List UInt8) :=
  if count < Numeral.wordLimit then .ok (wordBytes (Int32.ofNat count)) else .error (.tooLarge what count)

/-- A parcel that is being written. -/
structure Writer where
  bytes : List UInt8
deriving DecidableEq

namespace Writer

/-- The parcel with nothing in it. -/
def empty : Writer := ⟨[]⟩

def size (w : Writer) : Nat := w.bytes.length

/-- Whether nothing is written yet. -/
def isEmpty (w : Writer) : Bool := w.bytes.isEmpty

def append (w : Writer) (bs : List UInt8) : Writer := ⟨w.bytes ++ bs⟩

def word (w : Writer) (n : Int32) : Writer := w.append (wordBytes n)

/-- Fills up with zeros to a multiple of four bytes. -/
def pad (w : Writer) : Writer := w.append (List.replicate (roundUp w.size - w.size) 0)

/-- Puts a string at the end: the number of its code units, the units, a zero unit, and padding. -/
def string (w : Writer) (s : String) : Except ParcelError Writer := do
  let units := Utf16.encode s.toList
  let count ← countBytes "string" units.length
  return ((w.append count).append ((units ++ [0]).flatMap unitBytes)).pad

end Writer

end Overlays.Parcel
