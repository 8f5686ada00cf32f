import Overlays.Parcel.Basic
import Overlays.Proofs.Text.Utf16

set_option autoImplicit false
set_option relaxedAutoImplicit false

namespace Overlays.Parcel

open Text

private theorem byte_toNat_ofNat (n : Nat) : (UInt8.ofNat n).toNat = n % 0x100 :=
  UInt8.toNat_ofNat'

private theorem byte_eq_of_mod {n : Nat} {b : UInt8} (h : n % 0x100 = b.toNat) : UInt8.ofNat n = b := by
  apply UInt8.toNat_inj.mp
  rw [byte_toNat_ofNat, h]

@[simp] theorem length_wordBytes (w : Int32) : (wordBytes w).length = 4 := rfl

theorem wordBytes_wordOfBytes (b₀ b₁ b₂ b₃ : UInt8) :
    wordBytes (wordOfBytes b₀ b₁ b₂ b₃) = [b₀, b₁, b₂, b₃] := by
  have h₀ := b₀.toNat_lt
  have h₁ := b₁.toNat_lt
  have h₂ := b₂.toNat_lt
  have h₃ := b₃.toNat_lt
  have value : (wordOfBytes b₀ b₁ b₂ b₃).toUInt32.toNat =
      b₀.toNat + b₁.toNat * 0x100 + b₂.toNat * 0x10000 + b₃.toNat * 0x1000000 := by
    rw [wordOfBytes, UInt32.toUInt32_toInt32, UInt32.toNat_ofNat']
    exact Nat.mod_eq_of_lt (by omega)
  simp only [wordBytes, value]
  congr 1
  · exact byte_eq_of_mod (by omega)
  congr 1
  · exact byte_eq_of_mod (by omega)
  congr 1
  · exact byte_eq_of_mod (by omega)
  congr 1
  · exact byte_eq_of_mod (by omega)

theorem wordOfBytes_of_wordBytes {w : Int32} {b₀ b₁ b₂ b₃ : UInt8}
    (h : wordBytes w = [b₀, b₁, b₂, b₃]) : wordOfBytes b₀ b₁ b₂ b₃ = w := by
  have bound := w.toUInt32.toNat_lt
  simp only [wordBytes, List.cons.injEq, and_true] at h
  obtain ⟨rfl, rfl, rfl, rfl⟩ := h
  simp only [wordOfBytes, byte_toNat_ofNat]
  have value : w.toUInt32.toNat % 0x100 + w.toUInt32.toNat / 0x100 % 0x100 * 0x100 +
      w.toUInt32.toNat / 0x10000 % 0x100 * 0x10000 +
      w.toUInt32.toNat / 0x1000000 % 0x100 * 0x1000000 = w.toUInt32.toNat := by omega
  rw [value, UInt32.ofNat_toNat, Int32.toInt32_toUInt32]

private theorem toInt_count {n : Nat} (h : n < Numeral.wordLimit) : (Int32.ofNat n).toInt = n :=
  Int32.toInt_ofNat_of_lt h

theorem count_not_neg {n : Nat} (h : n < Numeral.wordLimit) : ¬ Int32.ofNat n < 0 := by
  rw [Int32.lt_iff_toInt_lt, toInt_count h, Int32.toInt_zero]
  omega

theorem toNat_toInt_count {n : Nat} (h : n < Numeral.wordLimit) : (Int32.ofNat n).toInt.toNat = n := by
  rw [toInt_count h]
  rfl

theorem count_ne_neg_one {n : Nat} (h : n < Numeral.wordLimit) : Int32.ofNat n ≠ -1 := by
  intro missing
  have nonnegative := count_not_neg h
  rw [missing] at nonnegative
  exact nonnegative (by decide)

theorem eq_count_of_not_neg {w : Int32} (h : ¬ w < 0) :
    w.toInt.toNat < Numeral.wordLimit ∧ Int32.ofNat w.toInt.toNat = w := by
  rw [Int32.lt_iff_toInt_lt, Int32.toInt_zero] at h
  have bound := w.toInt_lt
  have fits : w.toInt.toNat < Numeral.wordLimit := by
    simp only [Numeral.wordLimit]
    omega
  refine ⟨fits, Int32.toInt_inj.mp ?_⟩
  rw [toInt_count fits]
  omega

@[simp] theorem length_unitBytes (u : UInt16) : (unitBytes u).length = 2 := rfl

theorem length_flatMap_unitBytes (us : List UInt16) : (us.flatMap unitBytes).length = us.length * 2 := by
  induction us with
  | nil => rfl
  | cons u us ih =>
    simp only [List.flatMap_cons, List.length_append, List.length_cons, length_unitBytes, ih]
    omega

private theorem unit_of_unitBytes (u : UInt16) :
    UInt16.ofNat ((UInt8.ofNat u.toNat).toNat + (UInt8.ofNat (u.toNat / 0x100)).toNat * 0x100) = u := by
  have bound := u.toNat_lt
  have value : u.toNat % 0x100 + u.toNat / 0x100 % 0x100 * 0x100 = u.toNat := by omega
  rw [byte_toNat_ofNat, byte_toNat_ofNat, value, UInt16.ofNat_toNat]

private theorem unitBytes_of_bytes (b₀ b₁ : UInt8) :
    unitBytes (UInt16.ofNat (b₀.toNat + b₁.toNat * 0x100)) = [b₀, b₁] := by
  have h₀ := b₀.toNat_lt
  have h₁ := b₁.toNat_lt
  have value : (UInt16.ofNat (b₀.toNat + b₁.toNat * 0x100)).toNat = b₀.toNat + b₁.toNat * 0x100 := by
    rw [UInt16.toNat_ofNat']
    exact Nat.mod_eq_of_lt (by omega)
  simp only [unitBytes, value]
  congr 1
  · exact byte_eq_of_mod (by omega)
  congr 1
  · exact byte_eq_of_mod (by omega)

theorem unitsOfBytes_flatMap_unitBytes (us : List UInt16) : unitsOfBytes (us.flatMap unitBytes) = us := by
  induction us with
  | nil => rfl
  | cons u us ih =>
    rw [List.flatMap_cons]
    simp only [unitBytes, List.cons_append, List.nil_append, unitsOfBytes, unit_of_unitBytes]
    rw [ih]

theorem flatMap_unitBytes_unitsOfBytes {bs : List UInt8} {n : Nat} (h : bs.length = n * 2) :
    (unitsOfBytes bs).flatMap unitBytes = bs := by
  fun_induction unitsOfBytes bs generalizing n with
  | case1 b₀ b₁ bs ih =>
    simp only [List.length_cons] at h
    have tail : bs.length = (n - 1) * 2 := by omega
    rw [List.flatMap_cons, unitBytes_of_bytes, ih tail]
    rfl
  | case2 bs short =>
    match bs, short with
    | [], _ => rfl
    | [b], _ =>
      simp only [List.length_cons, List.length_nil] at h
      omega
    | b₀ :: b₁ :: bs, short => exact absurd rfl (short b₀ b₁ bs)

end Overlays.Parcel
