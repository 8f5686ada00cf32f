import Overlays.Text.Utf16

set_option autoImplicit false
set_option relaxedAutoImplicit false

namespace Overlays.Text.Utf16

theorem isHigh_iff (u : UInt16) : isHigh u = true ↔ 0xD800 ≤ u.toNat ∧ u.toNat < 0xDC00 := by
  simp [isHigh, UInt16.le_iff_toNat_le, UInt16.lt_iff_toNat_lt]

theorem isLow_iff (u : UInt16) : isLow u = true ↔ 0xDC00 ≤ u.toNat ∧ u.toNat < 0xE000 := by
  simp [isLow, UInt16.le_iff_toNat_le, UInt16.lt_iff_toNat_lt]

private theorem char_toNat_range (c : Char) :
    c.toNat < 0xD800 ∨ 0xDFFF < c.toNat ∧ c.toNat < 0x110000 :=
  c.valid

private theorem toNat_ofNat_of_scalar {n : Nat}
    (h : n < 0xD800 ∨ 0xDFFF < n ∧ n < 0x110000) : (Char.ofNat n).toNat = n := by
  rw [Char.ofNat, dif_pos h]
  rfl

private theorem toNat_ofNat_unit {n : Nat} (h : n < 0x10000) : (UInt16.ofNat n).toNat = n := by
  rw [UInt16.toNat_ofNat']
  exact Nat.mod_eq_of_lt h

private theorem encode_cons (c : Char) (cs : List Char) : encode (c :: cs) = encodeChar c ++ encode cs := rfl

private theorem decode?_encodeChar_short {c : Char} (h : c.toNat < 0x10000) (us : List UInt16) :
    decode? (encodeChar c ++ us) = (decode? us).map (c :: ·) := by
  have hu : (UInt16.ofNat c.toNat).toNat = c.toNat := toNat_ofNat_unit h
  have range := char_toNat_range c
  have high : ¬ isHigh (UInt16.ofNat c.toNat) = true := by rw [isHigh_iff]; omega
  have low : ¬ isLow (UInt16.ofNat c.toNat) = true := by rw [isLow_iff]; omega
  simp only [encodeChar, if_pos h, List.cons_append, List.nil_append]
  rw [decode?.eq_def]
  simp only [if_neg high, if_neg low, hu, Char.ofNat_toNat]

private theorem decode?_encodeChar_long {c : Char} (h : ¬ c.toNat < 0x10000) (us : List UInt16) :
    decode? (encodeChar c ++ us) = (decode? us).map (c :: ·) := by
  have range := char_toNat_range c
  have hu : (UInt16.ofNat (0xD800 + (c.toNat - 0x10000) / 0x400)).toNat =
      0xD800 + (c.toNat - 0x10000) / 0x400 := toNat_ofNat_unit (by omega)
  have hv : (UInt16.ofNat (0xDC00 + (c.toNat - 0x10000) % 0x400)).toNat =
      0xDC00 + (c.toNat - 0x10000) % 0x400 := toNat_ofNat_unit (by omega)
  have high : isHigh (UInt16.ofNat (0xD800 + (c.toNat - 0x10000) / 0x400)) = true := by
    rw [isHigh_iff]; omega
  have low : isLow (UInt16.ofNat (0xDC00 + (c.toNat - 0x10000) % 0x400)) = true := by
    rw [isLow_iff]; omega
  have joined : pairChar (UInt16.ofNat (0xD800 + (c.toNat - 0x10000) / 0x400))
      (UInt16.ofNat (0xDC00 + (c.toNat - 0x10000) % 0x400)) = c := by
    have hn : 0x10000 + (0xD800 + (c.toNat - 0x10000) / 0x400 - 0xD800) * 0x400 +
        (0xDC00 + (c.toNat - 0x10000) % 0x400 - 0xDC00) = c.toNat := by omega
    rw [pairChar, hu, hv, hn, Char.ofNat_toNat]
  simp only [encodeChar, if_neg h, List.cons_append, List.nil_append]
  rw [decode?, if_pos high]
  simp only [low, if_true, joined]

private theorem decode?_encodeChar_append (c : Char) (us : List UInt16) :
    decode? (encodeChar c ++ us) = (decode? us).map (c :: ·) := by
  by_cases h : c.toNat < 0x10000
  · exact decode?_encodeChar_short h us
  · exact decode?_encodeChar_long h us

theorem decode?_encode (cs : List Char) : decode? (encode cs) = some cs := by
  induction cs with
  | nil => rfl
  | cons c cs ih =>
    rw [encode_cons, decode?_encodeChar_append, ih]
    rfl

private theorem encodeChar_of_unit {u : UInt16} (high : ¬ isHigh u = true) (low : ¬ isLow u = true) :
    encodeChar (Char.ofNat u.toNat) = [u] := by
  rw [isHigh_iff] at high
  rw [isLow_iff] at low
  have bound := u.toNat_lt
  have hn : (Char.ofNat u.toNat).toNat = u.toNat := toNat_ofNat_of_scalar (by omega)
  rw [encodeChar, hn, if_pos (by omega), UInt16.ofNat_toNat]

private theorem encodeChar_of_pair {u v : UInt16} (high : isHigh u = true) (low : isLow v = true) :
    encodeChar (pairChar u v) = [u, v] := by
  rw [isHigh_iff] at high
  rw [isLow_iff] at low
  have hn : (pairChar u v).toNat =
      0x10000 + (u.toNat - 0xD800) * 0x400 + (v.toNat - 0xDC00) :=
    toNat_ofNat_of_scalar (by omega)
  have hu : 0xD800 + ((pairChar u v).toNat - 0x10000) / 0x400 = u.toNat := by omega
  have hv : 0xDC00 + ((pairChar u v).toNat - 0x10000) % 0x400 = v.toNat := by omega
  rw [encodeChar, if_neg (by omega), hu, hv, UInt16.ofNat_toNat, UInt16.ofNat_toNat]

theorem encode_of_decode? {us : List UInt16} {cs : List Char} (h : decode? us = some cs) :
    encode cs = us := by
  fun_induction decode? us generalizing cs with
  | case1 =>
    cases h
    rfl
  | case2 => contradiction
  | case3 u high v vs low ih =>
    obtain ⟨ds, hds, rfl⟩ := Option.map_eq_some_iff.mp h
    rw [encode_cons, encodeChar_of_pair high low, ih hds]
    rfl
  | case4 => contradiction
  | case5 => contradiction
  | case6 u us high low ih =>
    obtain ⟨ds, hds, rfl⟩ := Option.map_eq_some_iff.mp h
    rw [encode_cons, encodeChar_of_unit high low, ih hds]
    rfl

theorem decode?_eq_some_iff {us : List UInt16} {cs : List Char} :
    decode? us = some cs ↔ us = encode cs := by
  constructor
  · intro h
    exact (encode_of_decode? h).symm
  · intro h
    rw [h]
    exact decode?_encode cs

end Overlays.Text.Utf16
