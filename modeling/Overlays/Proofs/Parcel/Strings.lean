import Mathlib.Data.List.Basic
import Overlays.Parcel.Reader
import Overlays.Parcel.Writer
import Overlays.Proofs.Parcel.Words

/-!
Reading and writing the values of a parcel. Each reading step yields a value from exactly the bytes by which writing puts
that value into a parcel, and goes on behind them. Writing pads relative to the whole parcel and reading relative to the
string, so the two agree only because every value fills a multiple of four bytes.
-/

set_option autoImplicit false
set_option relaxedAutoImplicit false

namespace Overlays.Parcel

open Text

/-- The code units of a string can be counted by a signed word. -/
def Fits (s : String) : Prop := (Utf16.encode s.toList).length < Numeral.wordLimit

instance (s : String) : Decidable (Fits s) := inferInstanceAs (Decidable (_ < _))

/-- Code units in a parcel, without their count. -/
def unitsBody (us : List UInt16) : List UInt8 :=
  (us ++ [0]).flatMap unitBytes
    ++ List.replicate (roundUp ((us.length + 1) * 2) - (us.length + 1) * 2) 0

/-- Code units in a parcel, behind their count. -/
def unitsBytes (us : List UInt16) : List UInt8 := wordBytes (Int32.ofNat us.length) ++ unitsBody us

/-- A string in a parcel. -/
def stringBytes (s : String) : List UInt8 :=
  wordBytes (Int32.ofNat (Utf16.encode s.toList).length) ++ unitsBody (Utf16.encode s.toList)

theorem le_roundUp (n : Nat) : n ≤ roundUp n := by
  simp only [roundUp]
  omega

private theorem roundUp_add_four_mul (k n : Nat) : roundUp (4 * k + n) = 4 * k + roundUp n := by
  simp only [roundUp]
  omega

theorem length_unitsBody (us : List UInt16) :
    (unitsBody us).length = roundUp ((us.length + 1) * 2) := by
  have bound := le_roundUp ((us.length + 1) * 2)
  simp only [unitsBody, List.length_append, length_flatMap_unitBytes, List.length_replicate,
    List.length_cons, List.length_nil]
  omega

theorem four_dvd_length_stringBytes (s : String) : 4 ∣ (stringBytes s).length := by
  simp only [stringBytes, List.length_append, length_wordBytes, length_unitsBody, roundUp]
  omega

namespace Writer

@[simp] theorem size_append (w : Writer) (bs : List UInt8) : (w.append bs).size = w.size + bs.length := by
  simp [append, size]

theorem append_append (w : Writer) (as bs : List UInt8) : (w.append as).append bs = w.append (as ++ bs) := by
  simp [append]

theorem string_of_aligned {w : Writer} (aligned : 4 ∣ w.size) (s : String) :
    w.string s = if Fits s then .ok (w.append (stringBytes s))
      else .error (.tooLarge "string" (Utf16.encode s.toList).length) := by
  by_cases fits : Fits s
  · obtain ⟨k, hk⟩ := aligned
    have counted : countBytes "string" (Utf16.encode s.toList).length =
        .ok (wordBytes (Int32.ofNat (Utf16.encode s.toList).length)) := if_pos fits
    have start : w.size + 4 + ((Utf16.encode s.toList).length + 1) * 2 =
        4 * (k + 1) + ((Utf16.encode s.toList).length + 1) * 2 := by omega
    -- the places in the parcel and in the string differ by a multiple of four, which rounding up keeps
    have padding : roundUp (4 * (k + 1) + ((Utf16.encode s.toList).length + 1) * 2) -
        (4 * (k + 1) + ((Utf16.encode s.toList).length + 1) * 2) =
        roundUp (((Utf16.encode s.toList).length + 1) * 2) -
          ((Utf16.encode s.toList).length + 1) * 2 := by
      rw [roundUp_add_four_mul]
      omega
    rw [if_pos fits, string, counted]
    simp only [bind, Except.bind, pure, Except.pure, pad, size_append, length_wordBytes,
      length_flatMap_unitBytes, List.length_append, List.length_cons, List.length_nil, start, padding]
    simp only [append_append, stringBytes, unitsBody, List.append_assoc]
  · have counted : countBytes "string" (Utf16.encode s.toList).length =
        .error (.tooLarge "string" (Utf16.encode s.toList).length) := if_neg fits
    rw [if_neg fits, string, counted]
    rfl

end Writer

theorem stringOfBytes_unitsBody_eq (offset : Nat) (us : List UInt16) :
    stringOfBytes offset us.length (unitsBody us) =
      (Utf16.decode? us).elim (.error (.invalidUtf16 offset)) fun cs => .ok (String.ofList cs) := by
  have length : ((us ++ [0]).flatMap unitBytes).length = (us.length + 1) * 2 := by
    rw [length_flatMap_unitBytes, List.length_append]
    rfl
  have text : (unitsBody us).take ((us.length + 1) * 2) = (us ++ [0]).flatMap unitBytes := by
    rw [unitsBody, ← length, List.take_left]
  have padding : (unitsBody us).drop ((us.length + 1) * 2) =
      List.replicate (roundUp ((us.length + 1) * 2) - (us.length + 1) * 2) 0 := by
    rw [unitsBody]
    exact List.drop_left' length
  simp only [stringOfBytes, text, padding, unitsOfBytes_flatMap_unitBytes]
  rw [if_neg (by simp), if_neg (by simp), List.dropLast_concat]
  cases Utf16.decode? us with
  | none => rfl
  | some cs => rfl

theorem unitsBody_of_stringOfBytes {offset count : Nat} {bytes : List UInt8} {s : String}
    (length : bytes.length = roundUp ((count + 1) * 2)) (h : stringOfBytes offset count bytes = .ok s) :
    (Utf16.encode s.toList).length = count ∧ bytes = unitsBody (Utf16.encode s.toList) := by
  have bound := le_roundUp ((count + 1) * 2)
  have textLength : (bytes.take ((count + 1) * 2)).length = (count + 1) * 2 := by
    rw [List.length_take]
    omega
  have text := flatMap_unitBytes_unitsOfBytes textLength
  simp only [stringOfBytes] at h
  split at h
  · contradiction
  rename_i terminated
  split at h
  · contradiction
  rename_i padded
  split at h
  · rename_i cs decoded
    cases h
    rw [String.toList_ofList]
    rw [Utf16.decode?_eq_some_iff] at decoded
    rw [ne_eq, not_not] at terminated
    have units : unitsOfBytes (bytes.take ((count + 1) * 2)) = Utf16.encode cs ++ [0] := by
      rw [← decoded]
      exact (List.dropLast_append_getLast? 0 terminated).symm
    rw [units] at text
    have counted : (Utf16.encode cs).length = count := by
      rw [← text, length_flatMap_unitBytes, List.length_append] at textLength
      simp only [List.length_cons, List.length_nil] at textLength
      omega
    have zeros : bytes.drop ((count + 1) * 2) =
        List.replicate (roundUp ((count + 1) * 2) - (count + 1) * 2) 0 := by
      refine List.eq_replicate_iff.mpr ⟨by rw [List.length_drop, length], ?_⟩
      intro b hb
      by_contra nonzero
      exact padded (List.any_eq_true.mpr ⟨b, hb, by simpa using nonzero⟩)
    refine ⟨counted, ?_⟩
    rw [unitsBody, counted, text, ← zeros, List.take_append_drop]
  · contradiction

end Overlays.Parcel
