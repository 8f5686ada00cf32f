import Mathlib.Data.Nat.Digits.Defs
import Overlays.Text.Numeral

/-!
Which texts are whole numbers, and which numbers they are: decimal digits, as many as there may be and with zeros in
front or without, behind at most one sign. A reading that keeps to a word of 32 bits, and so has to check every product
and every sum, comes to the same number, or to none where no word holds it: what has grown out of a word stays out.
-/

set_option autoImplicit false
set_option relaxedAutoImplicit false

namespace Overlays.Text.Numeral

/-- The value of decimal digits, of which the last counts the ones. -/
def value (cs : List Char) : Nat := Nat.ofDigits 10 (cs.reverse.map fun c => c.toNat - '0'.toNat)

/-- One or more decimal digits. -/
structure IsDecimal (cs : List Char) : Prop where
  ne_nil : cs ≠ []
  digits : ∀ c ∈ cs, c.isDigit = true

/-- The number that decimal digits stand for, behind at most one sign. -/
inductive Denotes : List Char → Int → Prop
  | unsigned {cs : List Char} (decimal : IsDecimal cs) : Denotes cs (value cs)
  | plus {cs : List Char} (decimal : IsDecimal cs) : Denotes ('+' :: cs) (value cs)
  | minus {cs : List Char} (decimal : IsDecimal cs) : Denotes ('-' :: cs) (-(value cs : Int))

/-- The factor that the sign in front stands for, and what is behind the sign. -/
def unsign : List Char → Int × List Char
  | '-' :: cs => (-1, cs)
  | '+' :: cs => (1, cs)
  | cs => (1, cs)

/-- Reads on in a word that holds what has been read so far. A digit counts to the side of the sign, and the reading
ends where a product or a sum leaves the word. -/
def readWord (sign : Int) : Int32 → List Char → Option Int32
  | acc, [] => some acc
  | acc, c :: cs => do
    let shifted ← word? (acc.toInt * 10)
    let digit ← digit? 10 c
    let next ← word? (shifted.toInt + sign * digit)
    readWord sign next cs

/-- The number written by decimal digits behind at most one sign, read in a word. -/
def signedWord? (cs : List Char) : Option Int32 :=
  if (unsign cs).2 = [] then none else readWord (unsign cs).1 0 (unsign cs).2

variable {acc n m d base : Nat} {z sign : Int} {w : Int32} {c : Char} {cs : List Char}

private theorem digit?_eq_some_iff : digit? 10 c = some d ↔ c.isDigit = true ∧ d = c.toNat - '0'.toNat := by
  have zero : '0'.toNat = 48 := rfl
  have nine : '9'.toNat = 57 := rfl
  rw [digit?, digitValue, Char.isDigit_iff_toNat]
  by_cases decimal : '0' ≤ c ∧ c ≤ '9'
  · have range : '0'.toNat ≤ c.toNat ∧ c.toNat ≤ '9'.toNat := decimal
    have small : c.toNat - '0'.toNat < 10 := by omega
    rw [if_pos decimal, Option.filter_some, if_pos (decide_eq_true small), Option.some.injEq]
    exact ⟨fun h => ⟨range, h.symm⟩, fun h => h.2.symm⟩
  · have range : ¬ ('0'.toNat ≤ c.toNat ∧ c.toNat ≤ '9'.toNat) := decimal
    -- the letters stand for ten and more
    have letters : ∀ k : Nat, Option.filter (fun v => decide (v < 10)) (some (k + 10)) = none := by simp
    rw [if_neg decimal]
    refine iff_of_false ?_ (fun h => range h.1)
    split
    · rw [letters]
      exact nofun
    · split
      · rw [letters]
        exact nofun
      · exact nofun

private theorem value_cons (c : Char) (cs : List Char) :
    value (c :: cs) = (c.toNat - '0'.toNat) * 10 ^ cs.length + value cs := by
  have length : (cs.reverse.map fun c => c.toNat - '0'.toNat).length = cs.length := by simp
  rw [value, List.reverse_cons, List.map_append, Nat.ofDigits_append, length, List.map_singleton,
    Nat.ofDigits_singleton, Nat.mul_comm, Nat.add_comm]
  rfl

private theorem readDigits_eq_some_iff :
    readDigits 10 acc cs = some n ↔ (∀ c ∈ cs, c.isDigit = true) ∧ n = acc * 10 ^ cs.length + value cs := by
  induction cs generalizing acc with
  | nil =>
    have nothing : value [] = 0 := rfl
    rw [readDigits, Option.some.injEq, nothing, List.length_nil, Nat.pow_zero, Nat.mul_one, Nat.add_zero]
    exact ⟨fun h => ⟨by simp, h.symm⟩, fun h => h.2.symm⟩
  | cons c cs ih =>
    have shift (d : Nat) : (acc * 10 + d) * 10 ^ cs.length + value cs =
        acc * 10 ^ (c :: cs).length + (d * 10 ^ cs.length + value cs) := by
      rw [List.length_cons, Nat.pow_succ', Nat.add_mul, Nat.mul_assoc, Nat.add_assoc]
    rw [readDigits, Option.bind_eq_some_iff, List.forall_mem_cons, value_cons]
    constructor
    · rintro ⟨d, digit, rest⟩
      obtain ⟨first, rfl⟩ := digit?_eq_some_iff.mp digit
      obtain ⟨behind, total⟩ := ih.mp rest
      exact ⟨⟨first, behind⟩, total.trans (shift _)⟩
    · rintro ⟨⟨first, behind⟩, total⟩
      exact ⟨_, digit?_eq_some_iff.mpr ⟨first, rfl⟩, ih.mpr ⟨behind, total.trans (shift _).symm⟩⟩

theorem natural?_eq_some_iff : natural? 10 cs = some n ↔ IsDecimal cs ∧ n = value cs := by
  cases cs with
  | nil => exact iff_of_false nofun fun h => h.1.ne_nil rfl
  | cons c cs =>
    rw [natural?, readDigits_eq_some_iff, Nat.zero_mul, Nat.zero_add]
    constructor
    · rintro ⟨digits, total⟩
      exact ⟨⟨List.cons_ne_nil c cs, digits⟩, total⟩
    · rintro ⟨decimal, total⟩
      exact ⟨decimal.digits, total⟩

private theorem unsign_of_unsigned (minus : ∀ ds, cs ≠ '-' :: ds) (plus : ∀ ds, cs ≠ '+' :: ds) :
    unsign cs = (1, cs) := by
  unfold unsign
  split
  · exact absurd rfl (minus _)
  · exact absurd rfl (plus _)
  · rfl

private theorem unsign_of_isDecimal (decimal : IsDecimal cs) : unsign cs = (1, cs) := by
  refine unsign_of_unsigned ?_ ?_
  · rintro ds rfl
    exact absurd (decimal.digits _ List.mem_cons_self) (by decide)
  · rintro ds rfl
    exact absurd (decimal.digits _ List.mem_cons_self) (by decide)

private theorem unsign_factor (cs : List Char) : (unsign cs).1 = 1 ∨ (unsign cs).1 = -1 := by
  unfold unsign
  split
  · exact .inr rfl
  · exact .inl rfl
  · exact .inl rfl

private theorem integer?_eq (base : Nat) (cs : List Char) :
    integer? base cs = (natural? base (unsign cs).2).map fun n : Nat => (unsign cs).1 * (n : Int) := by
  unfold integer?
  split
  · next ds =>
    have signed : unsign ('-' :: ds) = (-1, ds) := rfl
    rw [signed]
    cases natural? base ds <;> simp
  · next ds =>
    have signed : unsign ('+' :: ds) = (1, ds) := rfl
    rw [signed]
    cases natural? base ds <;> simp
  · next minus plus =>
    rw [unsign_of_unsigned minus plus]
    cases natural? base cs <;> simp

private theorem denotes_of_unsign (decimal : IsDecimal (unsign cs).2) :
    Denotes cs ((unsign cs).1 * (value (unsign cs).2 : Int)) := by
  revert decimal
  unfold unsign
  split
  · intro decimal
    rw [Int.neg_one_mul]
    exact .minus decimal
  · intro decimal
    rw [Int.one_mul]
    exact .plus decimal
  · intro decimal
    rw [Int.one_mul]
    exact .unsigned decimal

theorem integer?_eq_some_iff : integer? 10 cs = some z ↔ Denotes cs z := by
  rw [integer?_eq, Option.map_eq_some_iff]
  constructor
  · rintro ⟨n, digits, rfl⟩
    obtain ⟨decimal, rfl⟩ := natural?_eq_some_iff.mp digits
    exact denotes_of_unsign decimal
  · intro denotes
    cases denotes with
    | unsigned decimal =>
      rw [unsign_of_isDecimal decimal]
      exact ⟨_, natural?_eq_some_iff.mpr ⟨decimal, rfl⟩, Int.one_mul _⟩
    | plus decimal => exact ⟨_, natural?_eq_some_iff.mpr ⟨decimal, rfl⟩, Int.one_mul _⟩
    | minus decimal => exact ⟨_, natural?_eq_some_iff.mpr ⟨decimal, rfl⟩, Int.neg_one_mul _⟩

theorem word?_eq_some_iff : word? z = some w ↔ w.toInt = z := by
  rw [word?]
  constructor
  · intro h
    split at h
    · rename_i range
      cases h
      exact Int32.toInt_ofInt_of_le range.1 range.2
    · cases h
  · rintro rfl
    have range : -(wordLimit : Int) ≤ w.toInt ∧ w.toInt < wordLimit := ⟨Int32.le_toInt w, Int32.toInt_lt w⟩
    rw [if_pos range, Int32.ofInt_toInt]

private theorem word?_eq_none_iff : word? z = none ↔ z < -2147483648 ∨ 2147483648 ≤ z := by
  have limit : (wordLimit : Int) = 2147483648 := rfl
  rw [word?, limit]
  split
  · exact iff_of_false nofun (by omega)
  · exact iff_of_true rfl (by omega)

private theorem le_of_readDigits (pos : 0 < base) (h : readDigits base acc cs = some n) : acc ≤ n := by
  induction cs generalizing acc with
  | nil =>
    cases h
    exact Nat.le_refl _
  | cons c cs ih =>
    obtain ⟨d, -, rest⟩ := Option.bind_eq_some_iff.mp h
    have shifted : acc ≤ acc * base := Nat.le_mul_of_pos_right acc pos
    have later := ih rest
    omega

private theorem word?_eq_none_of_le (factor : sign = 1 ∨ sign = -1) (le : n ≤ m) (out : word? (sign * n) = none) :
    word? (sign * m) = none := by
  rw [word?_eq_none_iff] at out ⊢
  rcases factor with rfl | rfl
  · omega
  · omega

/-- The step of the reading in a word keeps it at the number read so far; it ends for good where that number, or
what it is made of, has no word. -/
private theorem readWord_eq (factor : sign = 1 ∨ sign = -1) {held : Int32} (holds : held.toInt = sign * n) :
    readWord sign held cs = (readDigits 10 n cs).bind fun m => word? (sign * m) := by
  induction cs generalizing held n with
  | nil => exact (word?_eq_some_iff.mpr holds).symm
  | cons c cs ih =>
    rw [readWord, readDigits]
    cases digit : digit? 10 c with
    | none => cases word? (held.toInt * 10) <;> rfl
    | some d =>
      have lost (out : word? (sign * (n * 10 + d : Nat)) = none) :
          ((readDigits 10 (n * 10 + d) cs).bind fun m => word? (sign * m)) = none := by
        refine Option.bind_eq_none_iff.mpr fun m read => ?_
        exact word?_eq_none_of_le factor (le_of_readDigits (by decide) read) out
      have product : held.toInt * 10 = sign * (n * 10 : Nat) := by
        rw [holds, Nat.cast_mul, Int.mul_assoc]
        rfl
      have sum : sign * (n * 10 : Nat) + sign * d = sign * (n * 10 + d : Nat) := by
        rw [← Int.mul_add, ← Nat.cast_add]
      cases shifted : word? (held.toInt * 10) with
      | none =>
        rw [product] at shifted
        exact (lost (word?_eq_none_of_le factor (Nat.le_add_right _ d) shifted)).symm
      | some s =>
        have at_product : s.toInt = sign * (n * 10 : Nat) := (word?_eq_some_iff.mp shifted).trans product
        cases next : word? (s.toInt + sign * d) with
        | none =>
          have out : word? (sign * (n * 10 + d : Nat)) = none := by rw [← sum, ← at_product, next]
          simpa [next] using (lost out).symm
        | some t =>
          have at_sum : t.toInt = sign * (n * 10 + d : Nat) := by
            rw [word?_eq_some_iff.mp next, at_product, sum]
          simpa [next] using ih at_sum

/-- Reading in a word loses no number that a word holds, and makes none up. -/
theorem signedWord?_eq (cs : List Char) : signedWord? cs = (integer? 10 cs).bind word? := by
  rw [signedWord?, integer?_eq]
  cases digits : (unsign cs).2 with
  | nil => rfl
  | cons c ds =>
    have start : (0 : Int32).toInt = (unsign cs).1 * (0 : Nat) := by simp
    rw [if_neg (List.cons_ne_nil c ds), readWord_eq (unsign_factor cs) start, natural?, Option.bind_map]
    rfl

end Overlays.Text.Numeral
