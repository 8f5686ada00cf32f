import Mathlib.Data.List.Basic

/-!
Texts in the order of their bytes. In UTF-8 a character with a greater code has a greater first byte, or agrees in its
first bytes and is greater in the next one, so that the order of the bytes is the order of the characters.
-/

set_option autoImplicit false
set_option relaxedAutoImplicit false

namespace Overlays.Text.Utf8

/-- The bytes of a text in UTF-8. -/
def bytes (s : String) : List UInt8 := s.toUTF8.data.toList

/-- The first one of two lists of bytes ends where the second goes on, or is less in the first byte in which they
differ. -/
def BytesBefore : List UInt8 → List UInt8 → Prop := List.Lex fun a b => a.toNat < b.toNat

private theorem bytes_eq (s : String) : bytes s = s.toList.flatMap String.utf8EncodeChar := by
  rw [bytes, String.toUTF8, ← String.utf8Encode_toList, List.utf8Encode, List.data_toByteArray, List.toList_toArray]

variable {xs ys : List UInt8}

private theorem before_of_lt {m n : Nat} (bound : n < 0x100) (less : m < n) :
    BytesBefore (UInt8.ofNat m :: xs) (UInt8.ofNat n :: ys) := by
  apply List.Lex.rel
  rw [UInt8.toNat_ofNat', UInt8.toNat_ofNat']
  omega

private theorem before_of_le {m n : Nat} (bound : n < 0x100) (le : m ≤ n)
    (behind : m = n → BytesBefore xs ys) : BytesBefore (UInt8.ofNat m :: xs) (UInt8.ofNat n :: ys) := by
  by_cases same : m = n
  · subst same
    exact List.Lex.cons (behind rfl)
  · exact before_of_lt bound (by omega)

/-- Characters are in the order of their bytes, whatever follows them: the first bytes tell characters of different lengths
apart, and among those of one length the bytes are the digits of the code. -/
private theorem before_of_char_lt {c d : Char} (less : c.val.toNat < d.val.toNat) (xs ys : List UInt8) :
    BytesBefore (String.utf8EncodeChar c ++ xs) (String.utf8EncodeChar d ++ ys) := by
  have bound : d.val.toNat < 0x110000 := by
    rcases d.valid with low | ⟨-, high⟩
    · exact Nat.lt_trans low (by decide)
    · exact high
  simp only [String.utf8EncodeChar]
  generalize c.val.toNat = m at less
  generalize d.val.toNat = n at less bound
  split_ifs with c₁ d₁ d₂ d₃ c₂ d₁ d₂ d₃ c₃ d₁ d₂ d₃ d₁ d₂ d₃
  all_goals simp only [List.cons_append, List.nil_append]
  -- the character with the greater code is not the shorter one
  any_goals omega
  · exact before_of_lt (by omega) less
  · exact before_of_lt (by omega) (by omega)
  · exact before_of_lt (by omega) (by omega)
  · exact before_of_lt (by omega) (by omega)
  · refine before_of_le (by omega) (by omega) fun _ => ?_
    exact before_of_lt (by omega) (by omega)
  · exact before_of_lt (by omega) (by omega)
  · exact before_of_lt (by omega) (by omega)
  · refine before_of_le (by omega) (by omega) fun _ => ?_
    refine before_of_le (by omega) (by omega) fun _ => ?_
    exact before_of_lt (by omega) (by omega)
  · exact before_of_lt (by omega) (by omega)
  · refine before_of_le (by omega) (by omega) fun _ => ?_
    refine before_of_le (by omega) (by omega) fun _ => ?_
    refine before_of_le (by omega) (by omega) fun _ => ?_
    exact before_of_lt (by omega) (by omega)

private theorem utf8EncodeChar_ne_nil (c : Char) : String.utf8EncodeChar c ≠ [] := by
  intro none_
  have size := String.length_utf8EncodeChar c
  rw [none_, List.length_nil] at size
  have positive := c.utf8Size_pos
  omega

private theorem before_append (cs : List UInt8) (h : BytesBefore xs ys) : BytesBefore (cs ++ xs) (cs ++ ys) := by
  induction cs with
  | nil => exact h
  | cons c cs ih => exact List.Lex.cons ih

private theorem before_of_lex {cs ds : List Char} (h : List.Lex (fun c d => c.val.toNat < d.val.toNat) cs ds) :
    BytesBefore (cs.flatMap String.utf8EncodeChar) (ds.flatMap String.utf8EncodeChar) := by
  induction h with
  | @nil d ds =>
    obtain ⟨b, bs, bytes⟩ := List.exists_cons_of_ne_nil (utf8EncodeChar_ne_nil d)
    rw [List.flatMap_cons, bytes]
    exact List.Lex.nil
  | rel less => exact before_of_char_lt less _ _
  | cons _ ih => exact before_append _ ih

theorem before_of_compare {s t : String} (h : compare s t = .lt) : BytesBefore (bytes s) (bytes t) := by
  have less : s < t := compareOfLessAndEq_eq_lt.mp h
  have byChars : List.Lex (fun c d => c.val.toNat < d.val.toNat) s.toList t.toList :=
    String.lt_iff.mp less
  rw [bytes_eq, bytes_eq]
  exact before_of_lex byChars

end Overlays.Text.Utf8
