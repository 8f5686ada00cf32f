import Overlays.Proofs.Parcel.Steps

set_option autoImplicit false
set_option relaxedAutoImplicit false

namespace Overlays

open Text

namespace Text.Utf16

/-- Every high surrogate has a low one directly behind it, and every low one a high one directly in front of it. -/
structure Paired (us : List UInt16) : Prop where
  followed : ∀ i u, us[i]? = some u → isHigh u = true → ∃ v, us[i + 1]? = some v ∧ isLow v = true
  preceded : ∀ i v, us[i]? = some v → isLow v = true → ∃ j u, j + 1 = i ∧ us[j]? = some u ∧ isHigh u = true

variable {u v : UInt16} {us : List UInt16}

private theorem not_isLow_of_isHigh (high : isHigh u = true) : ¬ isLow u = true := by
  rw [isHigh_iff] at high
  rw [isLow_iff]
  omega

private theorem paired_nil : Paired [] := by
  constructor
  · intro i u here
    simp at here
  · intro i v here
    simp at here

private theorem paired_cons_iff (plain : ¬ isHigh u = true) (plain' : ¬ isLow u = true) :
    Paired (u :: us) ↔ Paired us := by
  constructor
  · intro paired
    constructor
    · intro i w here high
      have below : (u :: us)[i + 1]? = some w := here
      exact paired.followed (i + 1) w below high
    · intro i w here low
      have below : (u :: us)[i + 1]? = some w := here
      obtain ⟨j, x, next, before, high⟩ := paired.preceded (i + 1) w below low
      cases j with
      | zero =>
        have same : u = x := by simpa using before
        exact absurd (same ▸ high) plain
      | succ j => exact ⟨j, x, by omega, before, high⟩
  · intro paired
    constructor
    · intro i w here high
      cases i with
      | zero =>
        have same : u = w := by simpa using here
        exact absurd (same ▸ high) plain
      | succ i => exact paired.followed i w here high
    · intro i w here low
      cases i with
      | zero =>
        have same : u = w := by simpa using here
        exact absurd (same ▸ low) plain'
      | succ i =>
        obtain ⟨j, x, next, before, high⟩ := paired.preceded i w here low
        exact ⟨j + 1, x, by omega, before, high⟩

private theorem paired_cons_cons_iff (high : isHigh u = true) (low : isLow v = true) :
    Paired (u :: v :: us) ↔ Paired us := by
  have plain : ¬ isLow u = true := not_isLow_of_isHigh high
  have plain' : ¬ isHigh v = true := fun both => not_isLow_of_isHigh both low
  constructor
  · intro paired
    constructor
    · intro i w here high'
      have below : (u :: v :: us)[i + 2]? = some w := here
      exact paired.followed (i + 2) w below high'
    · intro i w here low'
      have below : (u :: v :: us)[i + 2]? = some w := here
      obtain ⟨j, x, next, before, high'⟩ := paired.preceded (i + 2) w below low'
      match j with
      | 0 => omega
      | 1 =>
        have same : v = x := by simpa using before
        exact absurd (same ▸ high') plain'
      | j + 2 => exact ⟨j, x, by omega, before, high'⟩
  · intro paired
    constructor
    · intro i w here high'
      match i with
      | 0 => exact ⟨v, rfl, low⟩
      | 1 =>
        have same : v = w := by simpa using here
        exact absurd (same ▸ high') plain'
      | i + 2 => exact paired.followed i w here high'
    · intro i w here low'
      match i with
      | 0 =>
        have same : u = w := by simpa using here
        exact absurd (same ▸ low') plain
      | 1 => exact ⟨0, u, rfl, rfl, high⟩
      | i + 2 =>
        obtain ⟨j, x, next, before, high'⟩ := paired.preceded i w here low'
        exact ⟨j + 2, x, by omega, before, high'⟩

/-- Exactly the units whose surrogates are paired are the units of a text. -/
private theorem isSome_decode?_iff (us : List UInt16) : (decode? us).isSome = true ↔ Paired us := by
  fun_induction decode? us with
  | case1 => exact iff_of_true rfl paired_nil
  | case2 u high =>
    refine iff_of_false (by simp) fun paired => ?_
    obtain ⟨v, behind, -⟩ := paired.followed 0 u rfl high
    simp at behind
  | case3 u high v vs low ih => rw [Option.isSome_map, ih, paired_cons_cons_iff high low]
  | case4 u high v vs other =>
    refine iff_of_false (by simp) fun paired => ?_
    obtain ⟨w, behind, low⟩ := paired.followed 0 u rfl high
    have same : v = w := by simpa using behind
    exact other (same ▸ low)
  | case5 u us other low =>
    refine iff_of_false (by simp) fun paired => ?_
    obtain ⟨j, w, next, -⟩ := paired.preceded 0 u rfl low
    omega
  | case6 u us plain plain' ih => rw [Option.isSome_map, ih, paired_cons_iff plain plain']

instance (us : List UInt16) : Decidable (Paired us) := decidable_of_iff _ (isSome_decode?_iff us)

end Text.Utf16

namespace Parcel

/-- Units that are laid out as a string are read if and only if their surrogates are paired, and then as the string that
has them; otherwise the complaint is about the place of the string. Either way reading goes on behind the string. -/
theorem nullableString_iff_paired {us : List UInt16} (fits : us.length < Numeral.wordLimit) {r r' : Reader}
    (behind : Behind r (unitsBytes us) r') :
    ((∃ o r'', nullableString.runFrom r = (.ok o, r'')) ↔ Utf16.Paired us) ∧
      (Utf16.Paired us → ∃ s : String, Utf16.encode s.toList = us ∧ nullableString.runFrom r = (.ok (some s), r')) ∧
      (¬ Utf16.Paired us → nullableString.runFrom r = (.error (.invalidUtf16 r.position), r')) := by
  have read := nullableString_of_units fits behind
  have accepted := Utf16.isSome_decode?_iff us
  cases decoded : Utf16.decode? us with
  | none =>
    rw [decoded] at read accepted
    have unpaired : ¬ Utf16.Paired us := fun paired => by simpa using accepted.mpr paired
    refine ⟨iff_of_false ?_ unpaired, fun paired => absurd paired unpaired, fun _ => read⟩
    rintro ⟨o, r'', h⟩
    cases read.symm.trans h
  | some cs =>
    rw [decoded] at read accepted
    have paired : Utf16.Paired us := accepted.mp rfl
    have units : Utf16.encode (String.ofList cs).toList = us := by
      rw [String.toList_ofList]
      exact Utf16.encode_of_decode? decoded
    exact ⟨iff_of_true ⟨_, _, read⟩ paired, fun _ => ⟨String.ofList cs, units, read⟩,
      fun unpaired => absurd paired unpaired⟩

/-- A pair with a zero unit behind it, and in the second list a lone half between that and the terminator. -/
private def paired : List UInt16 := [0xD83D, 0xDE03, 0]

private def halved : List UInt16 := [0xD83D, 0xDE03, 0, 0xDBFF]

theorem nullableString_iff_paired_of_halved :
    paired.length < Numeral.wordLimit ∧ halved.length < Numeral.wordLimit ∧
      Behind ⟨8, unitsBytes paired ++ [9]⟩ (unitsBytes paired) ⟨20, [9]⟩ ∧
      Behind ⟨8, unitsBytes halved ++ [9]⟩ (unitsBytes halved) ⟨24, [9]⟩ ∧
      (∃ s : String, Utf16.encode s.toList = paired ∧
        nullableString.runFrom ⟨8, unitsBytes paired ++ [9]⟩ = (.ok (some s), ⟨20, [9]⟩)) ∧
      nullableString.runFrom ⟨8, unitsBytes halved ++ [9]⟩ = (.error (.invalidUtf16 8), ⟨24, [9]⟩) := by
  have fits : paired.length < Numeral.wordLimit := by decide
  have fits' : halved.length < Numeral.wordLimit := by decide
  have behind : Behind ⟨8, unitsBytes paired ++ [9]⟩ (unitsBytes paired) ⟨20, [9]⟩ := ⟨rfl, rfl⟩
  have behind' : Behind ⟨8, unitsBytes halved ++ [9]⟩ (unitsBytes halved) ⟨24, [9]⟩ := ⟨rfl, rfl⟩
  exact ⟨fits, fits', behind, behind', (nullableString_iff_paired fits behind).2.1 (by decide),
    (nullableString_iff_paired fits' behind').2.2 (by decide)⟩

end Parcel

end Overlays
