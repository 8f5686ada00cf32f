import Overlays.Parcel.Basic

/-!
Reading parcels from front to back. A reader that fails keeps the place it has reached, so a caller may go on
reading behind the value that was refused.
-/

set_option autoImplicit false
set_option relaxedAutoImplicit false

namespace Overlays.Parcel

open Text

/-- A place in a parcel: how many bytes lie before it, and the bytes behind it. -/
structure Reader where
  position : Nat
  rest : List UInt8
deriving DecidableEq

/-- The place before the first byte. -/
def Reader.start (bytes : List UInt8) : Reader := ⟨0, bytes⟩

def Reader.remaining (r : Reader) : Nat := r.rest.length

/-- A reading step: its value or complaint, and the place reached either way. -/
abbrev Read (α : Type) := ExceptT ParcelError (StateM Reader) α

def Read.runFrom {α : Type} (x : Read α) (r : Reader) : Except ParcelError α × Reader := x r

/-- The next `needed` bytes; the place stays when there are fewer. -/
def take (needed : Nat) : Read (List UInt8) := fun r =>
  if needed ≤ r.remaining then
    (.ok (r.rest.take needed), ⟨r.position + needed, r.rest.drop needed⟩)
  else (.error (.unexpectedEnd r.position needed r.remaining), r)

def position : Read Nat := fun r => (.ok r.position, r)

def word : Read Int32 := do
  match ← take 4 with
  | [b₀, b₁, b₂, b₃] => return wordOfBytes b₀ b₁ b₂ b₃
  | _ => return 0

/-- The text of a string's bytes: `count` code units, a zero unit, and zeros to the end. -/
def stringOfBytes (offset count : Nat) (bytes : List UInt8) : Except ParcelError String :=
  let units := unitsOfBytes (bytes.take ((count + 1) * 2))
  if units.getLast? ≠ some 0 then .error (.missingTerminator offset)
  else if (bytes.drop ((count + 1) * 2)).any (· ≠ 0) then .error (.nonZeroPadding offset)
  else match Utf16.decode? units.dropLast with
    | some cs => .ok (String.ofList cs)
    | none => .error (.invalidUtf16 offset)

/-- The next string; a count of minus one stands for no string at all. -/
def nullableString : Read (Option String) := do
  let offset ← position
  let count ← word
  if count = -1 then return none
  if count < 0 then throw (.invalidStringLength offset count)
  let count := count.toInt.toNat
  let bytes ← take (roundUp ((count + 1) * 2))
  match stringOfBytes offset count bytes with
  | .ok s => return some s
  | .error e => throw e

/-- The next string, which must be there. -/
def string : Read String := do
  let offset ← position
  match ← nullableString with
  | some s => return s
  | none => throw (.nullString offset)

end Overlays.Parcel
