import Overlays.Parcel.Reader
import Overlays.Parcel.Writer
import Overlays.Transaction.Basic

set_option autoImplicit false
set_option relaxedAutoImplicit false

namespace Overlays

open Parcel

namespace Request

def write (w : Writer) (r : Request) : Except ParcelError Writer := do
  let w ← (w.word r.kind.code).string r.package
  return w.word r.user.number

/-- Reads the request that stands at `index` in its transaction. -/
def read (index : Nat) : Read Request := do
  let code ← Parcel.word
  let package ← Parcel.string
  if h : package = "" then throw (.emptyPackageName index)
  else
    let user ← Parcel.word
    return ⟨⟨code⟩, package, ⟨user⟩, h⟩

/-- Reads `count` requests, the first of which stands at `index`. -/
def readMany (index : Nat) : Nat → Read (List Request)
  | 0 => return []
  | count + 1 => do
    let r ← read index
    let rs ← readMany (index + 1) count
    return r :: rs

end Request

namespace Transaction

/-- Writes a transaction behind what a parcel already holds. -/
def write (w : Writer) (t : Transaction) : Except ParcelError Writer := do
  let count ← countBytes "request count" t.size
  t.requests.foldlM Request.write (w.append count)

def read : Read Transaction := do
  let count ← Parcel.word
  if count < 0 then throw (.negativeCount count)
  let requests ← Request.readMany 0 count.toInt.toNat
  return ⟨requests⟩

def encode (t : Transaction) : Except ParcelError (List UInt8) :=
  (write .empty t).map Writer.bytes

/-- The transaction of a parcel that holds nothing else. -/
def decode (bytes : List UInt8) : Except ParcelError Transaction :=
  match read.runFrom (.start bytes) with
  | (.ok t, place) => if place.remaining = 0 then .ok t else .error (.trailingBytes place.remaining)
  | (.error e, _) => .error e

end Transaction

end Overlays
