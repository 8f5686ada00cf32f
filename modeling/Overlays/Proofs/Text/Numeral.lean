import Mathlib.Data.List.Basic
import Overlays.Text.Numeral
import Overlays.User
import Overlays.Yaml.Plain

/-!
Numbers read back from their digits. Both printing and reading are seen from the last digit, so that one step of the
one undoes one step of the other.
-/

set_option autoImplicit false
set_option relaxedAutoImplicit false

namespace Overlays

namespace Text.Numeral

private theorem readDigits_append (base acc : Nat) (xs ys : List Char) :
    readDigits base acc (xs ++ ys) = (readDigits base acc xs).bind fun n => readDigits base n ys := by
  induction xs generalizing acc with
  | nil => rfl
  | cons x xs ih =>
    rw [List.cons_append, readDigits, readDigits, Option.bind_assoc]
    simp only [ih]

theorem natural?_concat {base n d : Nat} {xs : List Char} {c : Char} (front : natural? base xs = some n)
    (digit : digit? base c = some d) : natural? base (xs ++ [c]) = some (n * base + d) := by
  cases xs with
  | nil => cases front
  | cons x xs =>
    have front : readDigits base 0 (x :: xs) = some n := front
    change readDigits base 0 ((x :: xs) ++ [c]) = some (n * base + d)
    rw [readDigits_append, front, Option.bind_some, readDigits, digit]
    rfl

theorem natural?_single {base d : Nat} {c : Char} (digit : digit? base c = some d) :
    natural? base [c] = some d := by
  rw [natural?, readDigits, digit, Option.bind_some, readDigits, Nat.zero_mul, Nat.zero_add]

private theorem digit?_digitChar {d : Nat} (h : d < 10) : digit? 10 (Nat.digitChar d) = some d := by
  have all : ∀ d : Fin 10, digit? 10 (Nat.digitChar d) = some d.val := by decide
  exact all ⟨d, h⟩

theorem natural?_ofNat (n : Nat) : natural? 10 (ofNat n) = some n := by
  induction n using Nat.strongRecOn with
  | _ n ih =>
    by_cases small : n < 10
    · rw [ofNat, Nat.toDigits_of_lt_base small]
      exact natural?_single (digit?_digitChar small)
    · have front := ih (n / 10) (by omega)
      have last := digit?_digitChar (Nat.mod_lt n (show 10 > 0 by decide))
      have split : n / 10 * 10 + n % 10 = n := by omega
      rw [ofNat, Nat.toDigits_of_base_le (by decide) (by omega)]
      exact (natural?_concat front last).trans (congrArg some split)

theorem isDigit_of_mem_ofNat {n : Nat} {c : Char} (h : c ∈ ofNat n) : c.isDigit = true :=
  Nat.isDigit_of_mem_toDigits (by decide) (by decide) h

private theorem head?_ofNat {n : Nat} (pos : 0 < n) : (ofNat n).head? ≠ some '0' := by
  induction n using Nat.strongRecOn with
  | _ n ih =>
    by_cases small : n < 10
    · rw [ofNat, Nat.toDigits_of_lt_base small]
      have all : ∀ d : Fin 10, 0 < d.val → [Nat.digitChar d].head? ≠ some '0' := by decide
      exact all ⟨n, small⟩ pos
    · have front := ih (n / 10) (by omega) (by omega)
      rw [ofNat, Nat.toDigits_of_base_le (by decide) (by omega), List.head?_append]
      cases h : (Nat.toDigits 10 (n / 10)).head? with
      | none => simp [List.head?_eq_none_iff, Nat.toDigits_ne_nil] at h
      | some c =>
        rw [ofNat, h] at front
        exact front

end Text.Numeral

namespace Yaml.Plain

open Text

private theorem hasLeadingZero_of_head {cs : List Char} (h : cs.head? ≠ some '0') : hasLeadingZero cs = false := by
  unfold hasLeadingZero
  split
  · simp at h
  · rfl

private theorem magnitude?_ofNat (n : Nat) : magnitude? (Numeral.ofNat n) = some n := by
  rcases Nat.eq_zero_or_pos n with rfl | pos
  · decide
  · have head := Numeral.head?_ofNat pos
    unfold magnitude?
    split
    case h_4 =>
      rw [hasLeadingZero_of_head head]
      exact Numeral.natural?_ofNat n
    all_goals
      rename_i written
      rw [written] at head
      exact absurd rfl head

private theorem integer?_ofInt (n : Int) : integer? (Numeral.ofInt n) = some n := by
  cases n with
  | ofNat n =>
    change integer? (Numeral.ofNat n) = _
    unfold integer?
    split
    case h_3 => simp [magnitude?_ofNat]
    all_goals
      rename_i written
      have sign := Numeral.isDigit_of_mem_ofNat (n := n) (written ▸ List.mem_cons_self)
      exact absurd sign (by decide)
  | negSucc n =>
    rw [Numeral.ofInt, integer?, magnitude?_ofNat]
    rfl

end Yaml.Plain

namespace UserId

open Text

theorem word?_integer?_text (u : UserId) :
    (Yaml.Plain.integer? u.text.toList).bind Numeral.word? = some u.number := by
  have lower := Int32.le_toInt u.number
  have upper := Int32.toInt_lt u.number
  rw [text, Numeral.intText, String.toList_ofList, Yaml.Plain.integer?_ofInt, Option.bind_some, Numeral.word?,
    if_pos, Int32.ofInt_toInt]
  simp only [Numeral.wordLimit]
  omega

end UserId

end Overlays
