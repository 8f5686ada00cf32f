import Overlays.Proofs.Transaction.Codec

set_option autoImplicit false
set_option relaxedAutoImplicit false

namespace Overlays.Parcel

/-- A value that a parcel can hold. -/
inductive Value where
  | word (n : Int32)
  | string (s : String)
  | transaction (t : Transaction)
deriving DecidableEq

namespace Value

/-- Puts a value behind what a parcel already holds. -/
def write (w : Writer) : Value → Except ParcelError Writer
  | .word n => .ok (w.word n)
  | .string s => w.string s
  | .transaction t => t.write w

/-- All that has to be counted for a value can be counted by a signed word. -/
def Fits : Value → Prop
  | .word _ => True
  | .string s => Parcel.Fits s
  | .transaction t => t.Fits

/-- A value in a parcel. -/
def bytes : Value → List UInt8
  | .word n => wordBytes n
  | .string s => stringBytes s
  | .transaction t => t.bytes

private theorem four_dvd_length_bytes (v : Value) : 4 ∣ v.bytes.length := by
  cases v with
  | word n => exact ⟨1, rfl⟩
  | string s => exact four_dvd_length_stringBytes s
  | transaction t => exact t.four_dvd_length_bytes

private theorem write_of_aligned {w : Writer} (aligned : 4 ∣ w.size) {v : Value} (fits : v.Fits) :
    v.write w = .ok (w.append v.bytes) := by
  cases v with
  | word n => rfl
  | string s =>
    rw [write, Writer.string_of_aligned aligned]
    exact if_pos fits
  | transaction t => exact (Transaction.write_ok_iff aligned).mpr ⟨fits, rfl⟩

end Value

/-- What the next value of a parcel is read as. -/
inductive Form where
  | word
  | string
  | nullableString
  | transaction
deriving DecidableEq

namespace Form

/-- Reads the next value. There is none where a string is read that may be missing, and is. -/
def read : Form → Read (Option Value)
  | .word => do return some (.word (← Parcel.word))
  | .string => do return some (.string (← Parcel.string))
  | .nullableString => do return (← Parcel.nullableString).map .string
  | .transaction => do return some (.transaction (← Transaction.read))

/-- Whether a form is one for a value. -/
def Suits : Form → Value → Prop
  | .word, .word _ | .string, .string _ | .nullableString, .string _ | .transaction, .transaction _ => True
  | _, _ => False

private theorem read_of_behind {f : Form} {v : Value} (suits : f.Suits v) (fits : v.Fits) {r r' : Reader}
    (behind : Behind r v.bytes r') : f.read.runFrom r = (.ok (some v), r') := by
  cases f with
  | word =>
    cases v with
    | word n => exact runFrom_bind_ok_iff.mpr ⟨n, r', word_ok_iff.mpr behind, rfl⟩
    | string s => cases suits
    | transaction t => cases suits
  | string =>
    cases v with
    | word n => cases suits
    | string s => exact runFrom_bind_ok_iff.mpr ⟨s, r', string_ok_iff.mpr ⟨fits, behind⟩, rfl⟩
    | transaction t => cases suits
  | nullableString =>
    cases v with
    | word n => cases suits
    | string s =>
      have present : ∀ s' ∈ some s, Parcel.Fits s' := by
        rintro s' ⟨⟩
        exact fits
      exact runFrom_bind_ok_iff.mpr ⟨some s, r', nullableString_ok_iff.mpr ⟨present, behind⟩, rfl⟩
    | transaction t => cases suits
  | transaction =>
    cases v with
    | word n => cases suits
    | string s => cases suits
    | transaction t =>
      exact runFrom_bind_ok_iff.mpr ⟨t, r', Transaction.read_ok_iff.mpr ⟨fits, behind⟩, rfl⟩

end Form

/-- Writes values one after the other: the size of the parcel after each of them, and the parcel. -/
def writeAll : List Value → Writer → Except ParcelError (List Nat × Writer)
  | [], w => .ok ([], w)
  | v :: vs, w => do
    let w ← v.write w
    let (sizes, whole) ← writeAll vs w
    return (w.size :: sizes, whole)

/-- Reads values one after the other: the result and the position after each of them, and the place that is reached. What
cannot be read does not keep from reading on. -/
def readAll : List Form → Reader → List (Except ParcelError (Option Value) × Nat) × Reader
  | [], r => ([], r)
  | f :: fs, r =>
    let (result, r) := f.read.runFrom r
    let (results, place) := readAll fs r
    ((result, r.position) :: results, place)

/-- The ends of values that lie one behind the other from some offset on. -/
def ends : Nat → List Value → List Nat
  | _, [] => []
  | offset, v :: vs => (offset + v.bytes.length) :: ends (offset + v.bytes.length) vs

private theorem length_ends (offset : Nat) (vs : List Value) : (ends offset vs).length = vs.length := by
  induction vs generalizing offset with
  | nil => rfl
  | cons v vs ih => rw [ends, List.length_cons, List.length_cons, ih]

private theorem four_dvd_of_mem_ends {offset n : Nat} {vs : List Value} (aligned : 4 ∣ offset)
    (h : n ∈ ends offset vs) : 4 ∣ n := by
  induction vs generalizing offset with
  | nil => cases h
  | cons v vs ih =>
    have next : 4 ∣ offset + v.bytes.length := Nat.dvd_add aligned v.four_dvd_length_bytes
    rcases List.mem_cons.mp h with rfl | h
    · exact next
    · exact ih next h

private theorem writeAll_of_aligned {vs : List Value} {w : Writer} (aligned : 4 ∣ w.size) (fits : ∀ v ∈ vs, v.Fits) :
    writeAll vs w = .ok (ends w.size vs, w.append (vs.flatMap Value.bytes)) := by
  induction vs generalizing w with
  | nil =>
    rw [writeAll, ends, List.flatMap_nil, Writer.append, List.append_nil]
  | cons v vs ih =>
    obtain ⟨first, rest⟩ := List.forall_mem_cons.mp fits
    have next : 4 ∣ (w.append v.bytes).size := by
      rw [Writer.size_append]
      exact Nat.dvd_add aligned v.four_dvd_length_bytes
    rw [writeAll, Value.write_of_aligned aligned first]
    change (do
      let (sizes, whole) ← writeAll vs (w.append v.bytes)
      return ((w.append v.bytes).size :: sizes, whole)) = _
    rw [ih next rest, ends, List.flatMap_cons, ← Writer.append_append, Writer.size_append]
    rfl

private theorem readAll_of_behind {fs : List Form} {vs : List Value} (suit : List.Forall₂ Form.Suits fs vs)
    (fits : ∀ v ∈ vs, v.Fits) {r r' : Reader} (behind : Behind r (vs.flatMap Value.bytes) r') :
    readAll fs r = (List.zipWith (fun v n => (.ok (some v), n)) vs (ends r.position vs), r') := by
  induction suit generalizing r with
  | nil =>
    obtain rfl := behind_nil_iff.mp behind
    rfl
  | @cons f v fs vs suits _ ih =>
    obtain ⟨first, rest⟩ := List.forall_mem_cons.mp fits
    rw [List.flatMap_cons] at behind
    obtain ⟨r₁, here, behind⟩ := behind_append_iff.mp behind
    rw [readAll, Form.read_of_behind suits first here]
    simp only [ih rest behind, here.position_eq]
    rfl

/-- Values that are written into one parcel are read back from it, each as it was written, with the reader where the
writer was after each of them, and with nothing left behind the last. -/
theorem readAll_of_writeAll {fs : List Form} {vs : List Value} (suit : List.Forall₂ Form.Suits fs vs)
    (fits : ∀ v ∈ vs, v.Fits) :
    ∃ sizes w, writeAll vs .empty = .ok (sizes, w) ∧ sizes.length = vs.length ∧ (∀ n ∈ sizes, 4 ∣ n) ∧
      readAll fs (.start w.bytes) =
        (List.zipWith (fun v n => (.ok (some v), n)) vs sizes, ⟨w.size, []⟩) := by
  have start : 4 ∣ Writer.empty.size := ⟨0, rfl⟩
  have behind : Behind (.start (vs.flatMap Value.bytes)) (vs.flatMap Value.bytes)
      ⟨(vs.flatMap Value.bytes).length, []⟩ :=
    behind_start_iff.mpr ⟨(List.append_nil _).symm, rfl⟩
  refine ⟨ends 0 vs, ⟨vs.flatMap Value.bytes⟩, writeAll_of_aligned start fits, length_ends 0 vs, ?_, ?_⟩
  · intro n reached
    exact four_dvd_of_mem_ends ⟨0, rfl⟩ reached
  · exact readAll_of_behind suit fits behind

/-- Values of every kind: one that looks like a missing string, a string with a surrogate pair, a transaction whose only
request is of no known kind, and an empty string. -/
private def mixture : List Value :=
  [.word (-1), .string "a😀", .transaction ⟨[⟨⟨7⟩, "é", ⟨-1⟩, by decide⟩]⟩, .string "", .word 5]

private def mixtureForms : List Form := [.word, .nullableString, .transaction, .string, .word]

theorem readAll_of_writeAll_of_mixture :
    List.Forall₂ Form.Suits mixtureForms mixture ∧ (∀ v ∈ mixture, v.Fits) ∧
      ∃ w, writeAll mixture .empty = .ok ([4, 16, 36, 44, 48], w) ∧
        readAll mixtureForms (.start w.bytes) =
          (List.zipWith (fun v n => (.ok (some v), n)) mixture [4, 16, 36, 44, 48], ⟨48, []⟩) := by
  have suit : List.Forall₂ Form.Suits mixtureForms mixture :=
    .cons trivial (.cons trivial (.cons trivial (.cons trivial (.cons trivial .nil))))
  have fits : ∀ v ∈ mixture, v.Fits := by
    simp only [mixture, List.forall_mem_cons, Value.Fits]
    exact ⟨trivial, by decide, ⟨by decide, by decide⟩, by decide, trivial, by simp⟩
  obtain ⟨sizes, w, written, -, -, back⟩ := readAll_of_writeAll suit fits
  have sizes_eq : (writeAll mixture .empty).map Prod.fst = .ok [4, 16, 36, 44, 48] := rfl
  have size_eq : (writeAll mixture .empty).map (·.2.size) = .ok 48 := rfl
  rw [written] at sizes_eq size_eq
  obtain rfl : sizes = [4, 16, 36, 44, 48] := Except.ok.inj sizes_eq
  have place : w.size = 48 := Except.ok.inj size_eq
  rw [place] at back
  exact ⟨suit, fits, w, written, back⟩

end Overlays.Parcel
