import Overlays.Proofs.Parcel.Cursor
import Overlays.Proofs.Parcel.Values

set_option autoImplicit false
set_option relaxedAutoImplicit false

namespace Overlays

open Parcel

namespace Request

/-- The kind, an empty name with its count and the user: no request takes fewer bytes. -/
def leastSize : Nat := 4 + 8 + 4

private theorem leastSize_le_length_bytes (q : Request) : leastSize ≤ q.bytes.length := by
  simp only [leastSize, bytes, stringBytes, List.length_append, length_wordBytes, length_unitsBody, roundUp]
  omega

private theorem leastSize_mul_le_length_flatMap_bytes (qs : List Request) :
    leastSize * qs.length ≤ (qs.flatMap bytes).length := by
  induction qs with
  | nil => exact Nat.le_refl _
  | cons q qs ih =>
    have first := q.leastSize_le_length_bytes
    rw [List.flatMap_cons, List.length_append, List.length_cons, Nat.mul_succ]
    omega

end Request

/-- For how many requests room is made, by the number that is claimed and the bytes that are left. -/
def Transaction.reserved (count left : Nat) : Nat :=
  if count ≤ left / Request.leastSize then count else left / Request.leastSize

namespace Transaction

private theorem reserved_le_div (count left : Nat) : reserved count left ≤ left / Request.leastSize := by
  rw [reserved]
  by_cases fewer : count ≤ left / Request.leastSize
  · rwa [if_pos fewer]
  · exact Nat.le_of_eq (if_neg fewer)

private theorem leastSize_mul_reserved_le (count left : Nat) : Request.leastSize * reserved count left ≤ left :=
  Nat.le_trans (Nat.mul_le_mul_left _ (reserved_le_div count left)) (Nat.mul_div_le left _)

private theorem le_reserved {count left n : Nat} (claimed : n ≤ count) (held : Request.leastSize * n ≤ left) :
    n ≤ reserved count left := by
  rw [reserved]
  by_cases fewer : count ≤ left / Request.leastSize
  · rwa [if_pos fewer]
  · rw [if_neg fewer, Nat.le_div_iff_mul_le (by decide), Nat.mul_comm]
    exact held

end Transaction

namespace Parcel

namespace Guarded

def request (index : Nat) : Guarded Request := do
  let code ← word
  let package ← string
  if h : package = "" then throw (.emptyPackageName index)
  else
    let user ← word
    return ⟨⟨code⟩, package, ⟨user⟩, h⟩

/-- Puts a request behind others, where there is room for it. -/
def push? (room : Nat) (done : List Request) (q : Request) : Option (List Request) :=
  if done.length < room then some (done ++ [q]) else none

/-- Reads `count` more requests behind those that are done, the next of which stands at `index`. -/
def requests (room index : Nat) (done : List Request) : Nat → Guarded (List Request)
  | 0 => return done
  | count + 1 => do
    let q ← request index
    let done ← inRange (push? room done q)
    requests room (index + 1) done count

def transaction : Guarded Transaction := do
  let count ← word
  if count < 0 then throw (.negativeCount count)
  let left ← remaining
  let requests ← requests (Transaction.reserved count.toInt.toNat left) 0 [] count.toInt.toNat
  return ⟨requests⟩

end Guarded

section Steps

variable {data : List UInt8} {r : Reader}

private theorem safe_request (inMemory : data.length < Guarded.sizeLimit) (at_ : r.At data) (index : Nat) :
    Safe data (Guarded.request index) (Request.read index) r := by
  refine (safe_word inMemory at_).bind ?_
  intro code r₁ _ at₁
  refine (safe_string inMemory at₁).bind ?_
  intro package r₂ _ at₂
  by_cases empty : package = ""
  · simp only [dif_pos empty]
    exact .throw at₂ (by rintro _ _ _ ⟨⟩)
  · simp only [dif_neg empty]
    exact (safe_word inMemory at₂).map fun user => (⟨⟨code⟩, package, ⟨user⟩, empty⟩ : Request)

/-- There is room for each request that is read, as long as there is room for those that the bytes ahead could hold. -/
private theorem safe_requests (inMemory : data.length < Guarded.sizeLimit) (at_ : r.At data) {room count : Nat}
    (index : Nat) (done : List Request)
    (enough : ∀ n, n ≤ count → Request.leastSize * n ≤ r.remaining → done.length + n ≤ room) :
    Safe data (Guarded.requests room index done count)
      (Request.readMany index count >>= fun qs => pure (done ++ qs)) r := by
  -- each request uses up the bytes for which it was given room, so there is room for the others behind it
  induction count generalizing index done r with
  | zero =>
    rw [Request.readMany, pure_bind, List.append_nil]
    exact .pure at_ done
  | succ count ih =>
    rw [Request.readMany]
    simp only [bind_assoc, pure_bind]
    refine (safe_request inMemory at_ index).bind ?_
    intro q r₁ got at₁
    have passed := (Request.read_ok_iff.mp got).2.remaining_eq
    have size := q.leastSize_le_length_bytes
    have room_left : done.length < room := enough 1 (by omega) (by omega)
    refine .check (if_pos room_left) ?_
    have rest := ih at₁ (index + 1) (done ++ [q]) fun n claimed held => by
      have more := enough (n + 1) (by omega) (by rw [Nat.mul_succ]; omega)
      rw [List.length_append, List.length_singleton]
      omega
    simpa only [List.append_assoc, List.singleton_append] using rest

private theorem safe_transaction (inMemory : data.length < Guarded.sizeLimit) (at_ : r.At data) :
    Safe data Guarded.transaction Transaction.read r := by
  refine (safe_word inMemory at_).bind ?_
  intro count r₁ _ at₁
  by_cases negative : count < 0
  · simp only [if_pos negative]
    exact .throw at₁ (by rintro _ _ _ ⟨⟩)
  simp only [if_neg negative]
  refine .look (a := data.length - r₁.position) rfl ?_
  rw [← at₁.remaining_eq]
  refine Safe.map ?_ Transaction.mk
  have enough : ∀ n, n ≤ count.toInt.toNat → Request.leastSize * n ≤ r₁.remaining →
      ([] : List Request).length + n ≤ Transaction.reserved count.toInt.toNat r₁.remaining := by
    intro n claimed held
    rw [List.length_nil, Nat.zero_add]
    exact Transaction.le_reserved claimed held
  simpa only [List.nil_append, bind_pure] using safe_requests inMemory at₁ 0 [] enough

end Steps

/-- Reads the next value by places. -/
def Form.readAt : Form → Guarded (Option Value)
  | .word => do return some (.word (← Guarded.word))
  | .string => do return some (.string (← Guarded.string))
  | .nullableString => do return (← Guarded.nullableString).map .string
  | .transaction => do return some (.transaction (← Guarded.transaction))

/-- Reads values one after the other by places, as long as no range is left. -/
def readAllAt : List Form → Cursor → Option (List (Except ParcelError (Option Value) × Nat) × Cursor)
  | [], c => some ([], c)
  | f :: fs, c => do
    let (result, c) ← f.readAt.runFrom c
    let (results, place) ← readAllAt fs c
    return ((result, c.position) :: results, place)

section Runs

variable {data : List UInt8} {r : Reader}

private theorem Form.safe_read (inMemory : data.length < Guarded.sizeLimit) (at_ : r.At data) (f : Form) :
    Safe data f.readAt f.read r := by
  cases f with
  | word => exact (safe_word inMemory at_).map fun n => some (Value.word n)
  | string => exact (safe_string inMemory at_).map fun s => some (Value.string s)
  | nullableString => exact (safe_nullableString inMemory at_).map (Option.map Value.string)
  | transaction => exact (safe_transaction inMemory at_).map fun t => some (Value.transaction t)

private theorem readAllAt_eq (inMemory : data.length < Guarded.sizeLimit) (at_ : r.At data) (fs : List Form) :
    readAllAt fs ⟨data, r.position⟩ = some ((readAll fs r).1, ⟨data, (readAll fs r).2.position⟩) ∧
      (readAll fs r).2.At data := by
  induction fs generalizing r with
  | nil => exact ⟨rfl, at_⟩
  | cons f fs ih =>
    have step := f.safe_read inMemory at_
    obtain ⟨later, reached⟩ := ih step.reached
    refine ⟨?_, reached⟩
    rw [readAllAt, step.runFrom_eq]
    change ((readAllAt fs ⟨data, (f.read.runFrom r).2.position⟩).bind fun p =>
      some (((f.read.runFrom r).1, (f.read.runFrom r).2.position) :: p.1, p.2)) = _
    rw [later]
    rfl

end Runs

/-- A read does not go back, and where it complains of the end it says how things stand at the place reached. -/
structure Form.Orderly (f : Form) (r : Reader) : Prop where
  onward : r.position ≤ (f.read.runFrom r).2.position
  ended : ∀ offset needed remaining, (f.read.runFrom r).1 = .error (.unexpectedEnd offset needed remaining) →
    offset = (f.read.runFrom r).2.position ∧ remaining = (f.read.runFrom r).2.remaining ∧ remaining < needed

/-- A transaction takes the bytes that its requests need at least. The room that is made for them, by the number that
stands in front of them, is enough for those that are read, and is bounded by the parcel. -/
structure Reader.Roomy (data : List UInt8) (r : Reader) : Prop where
  consumed : ∀ t r', Transaction.read.runFrom r = (.ok t, r') →
    r.position + 4 + Request.leastSize * t.size ≤ r'.position
  enough : ∀ count r₁ t r', word.runFrom r = (.ok count, r₁) → Transaction.read.runFrom r = (.ok t, r') →
    t.size ≤ Transaction.reserved count.toInt.toNat r₁.remaining
  bounded : ∀ count r₁, word.runFrom r = (.ok count, r₁) →
    Request.leastSize * Transaction.reserved count.toInt.toNat r₁.remaining ≤ data.length

/-- How things stand at a place in a parcel, and with whatever is read next. -/
structure Reader.InBounds (data : List UInt8) (r : Reader) : Prop where
  place : r.At data
  whole : r.position + r.remaining = data.length
  orderly : ∀ f : Form, f.Orderly r
  roomy : r.Roomy data

private theorem requests_of_read {t : Transaction} {r r' : Reader} (h : Transaction.read.runFrom r = (.ok t, r')) :
    t.Fits ∧ ∃ r₁, Behind r (wordBytes (Int32.ofNat t.size)) r₁ ∧
      Behind r₁ (t.requests.flatMap Request.bytes) r' := by
  obtain ⟨fits, behind⟩ := Transaction.read_ok_iff.mp h
  exact ⟨fits, behind_append_iff.mp behind⟩

private theorem Reader.At.roomy {data : List UInt8} {r : Reader} (at_ : r.At data) : r.Roomy data := by
  refine ⟨?_, ?_, ?_⟩
  · intro t r' read
    obtain ⟨-, r₁, counted, requests⟩ := requests_of_read read
    have size := Request.leastSize_mul_le_length_flatMap_bytes t.requests
    rw [requests.position_eq, counted.position_eq, length_wordBytes, Transaction.size]
    omega
  · intro count r₁ t r' counted read
    obtain ⟨fits, r₂, counted', requests⟩ := requests_of_read read
    rw [word_ok_iff.mpr counted'] at counted
    cases counted
    rw [toNat_toInt_count fits.size_lt]
    refine Transaction.le_reserved (Nat.le_refl _) ?_
    have size := Request.leastSize_mul_le_length_flatMap_bytes t.requests
    rw [requests.remaining_eq, Transaction.size]
    omega
  · intro count r₁ counted
    have passed := (word_ok_iff.mp counted).remaining_eq
    have left := at_.remaining_eq
    have reserved := Transaction.leastSize_mul_reserved_le count.toInt.toNat r₁.remaining
    omega

private theorem Reader.At.inBounds {data : List UInt8} {r : Reader} (inMemory : data.length < Guarded.sizeLimit)
    (at_ : r.At data) : r.InBounds data := by
  refine ⟨at_, ?_, ?_, at_.roomy⟩
  · rw [at_.remaining_eq]
    exact Nat.add_sub_cancel' at_.within
  · intro f
    have step := f.safe_read inMemory at_
    exact ⟨step.onward, step.ended⟩

/-- Whatever is read from a parcel, no read leaves a range: reading by places, with every sum, slice, index and list
checked for its bounds, gives the same results. Each place that is reached lies in the parcel at a multiple of four
bytes, and whatever is read next keeps to the bounds as well. -/
theorem readAll_inBounds {data : List UInt8} (inMemory : data.length < Guarded.sizeLimit) (fs : List Form) :
    readAllAt fs ⟨data, 0⟩ =
        some ((readAll fs (.start data)).1, ⟨data, (readAll fs (.start data)).2.position⟩) ∧
      (readAll fs (.start data)).2.InBounds data := by
  obtain ⟨same, reached⟩ := readAllAt_eq inMemory (Reader.start_at data) fs
  exact ⟨same, reached.inBounds inMemory⟩

/-- A parcel that claims more requests than it could hold, the first of them with a name that is too long. Where that name
should be, a transaction of one request can be read. -/
private def boastful : List UInt8 :=
  [255, 255, 255, 127, 0, 0, 0, 0, 255, 255, 255, 127] ++
    [1, 0, 0, 0, 1, 0, 0, 0, 4, 0, 0, 0, 109, 0, 111, 0, 115, 0, 115, 0, 0, 0, 0, 0, 9, 0, 0, 0]

private def moss : Transaction := ⟨[⟨⟨1⟩, "moss", ⟨9⟩, by decide⟩]⟩

theorem readAll_inBounds_of_boastful :
    boastful.length < Guarded.sizeLimit ∧
      readAllAt [.transaction] ⟨boastful, 0⟩ =
        some ([(.error (.unexpectedEnd 12 4294967296 28), 12)], ⟨boastful, 12⟩) ∧
      Transaction.reserved 2147483647 36 = 2 ∧
      Transaction.read.runFrom ⟨12, boastful.drop 12⟩ = (.ok moss, ⟨40, []⟩) ∧ 12 + 4 + 16 * 1 ≤ 40 := by
  have inMemory : boastful.length < Guarded.sizeLimit := by decide
  obtain ⟨same, bounds⟩ := readAll_inBounds inMemory [.transaction]
  have read : readAll [.transaction] (.start boastful) =
      ([(.error (.unexpectedEnd 12 4294967296 28), 12)], ⟨12, boastful.drop 12⟩) := rfl
  have next : Transaction.read.runFrom ⟨12, boastful.drop 12⟩ = (.ok moss, ⟨40, []⟩) := rfl
  rw [read] at same bounds
  exact ⟨inMemory, same, rfl, next, bounds.roomy.consumed moss _ next⟩

end Parcel

end Overlays
