import Overlays.Proofs.Text.Digits
import Overlays.Proofs.Text.Numeral

set_option autoImplicit false
set_option relaxedAutoImplicit false

namespace Overlays.UserArg

open Text Numeral

/-- A whole number that is the number of a user. -/
def NamesNumber (cs : List Char) : Prop := ∃ n : Int, Denotes cs n ∧ 0 ≤ n ∧ n ≤ 2147483647

variable {cs : List Char} {user : UserId} {word : String}

private theorem number?_eq_of_word (cs : List Char) :
    number? cs = (signedWord? cs).bind fun w => if 0 ≤ w.toInt then some ⟨w⟩ else none := by
  rw [number?, signedWord?_eq, Option.bind_assoc]
  congr 1
  funext n
  cases held : word? n with
  | none => simp
  | some w =>
    have same : w.toInt = n := word?_eq_some_iff.mp held
    rw [Option.bind_some, Option.map_some, same]

private theorem number?_eq_some_iff :
    number? cs = some user ↔ Denotes cs user.number.toInt ∧ 0 ≤ user.number.toInt := by
  rw [number?, Option.bind_eq_some_iff]
  constructor
  · rintro ⟨n, read, found⟩
    split at found
    · next natural =>
      obtain ⟨w, held, rfl⟩ := Option.map_eq_some_iff.mp found
      have same : w.toInt = n := word?_eq_some_iff.mp held
      exact ⟨same ▸ integer?_eq_some_iff.mp read, same ▸ natural⟩
    · cases found
  · rintro ⟨denotes, natural⟩
    refine ⟨user.number.toInt, integer?_eq_some_iff.mpr denotes, ?_⟩
    rw [if_pos natural, word?_eq_some_iff.mpr rfl, Option.map_some]

private theorem exists_number?_iff : (∃ user, number? cs = some user) ↔ NamesNumber cs := by
  simp only [number?_eq_some_iff]
  constructor
  · rintro ⟨user, denotes, natural⟩
    have upper : user.number.toInt < 2147483648 := Int32.toInt_lt user.number
    exact ⟨user.number.toInt, denotes, natural, by omega⟩
  · rintro ⟨n, denotes, natural, upper⟩
    have same : (Int32.ofInt n).toInt = n := Int32.toInt_ofInt_of_le (by omega) (by omega)
    exact ⟨⟨Int32.ofInt n⟩, same.symm ▸ denotes, same.symm ▸ natural⟩

private theorem number?_eq_none_of_current (current : word = "current" ∨ word = "cur") :
    number? word.toList = none := by
  rcases current with rfl | rfl
  · decide
  · decide

private theorem parse_current_iff : parse word = .ok .current ↔ word = "current" ∨ word = "cur" := by
  rw [parse]
  split
  · next current => exact iff_of_true rfl current
  · next other =>
    refine iff_of_false ?_ other
    split
    · simp
    · simp

private theorem parse_id_iff : parse word = .ok (.id user) ↔ number? word.toList = some user := by
  rw [parse]
  split
  · next current =>
    rw [number?_eq_none_of_current current]
    simp
  · cases number? word.toList with
    | none => simp
    | some found => simp

private theorem parse_error_iff {e : BadUserNumber} :
    parse word = .error e ↔ e = ⟨word⟩ ∧ ¬ (word = "current" ∨ word = "cur") ∧ number? word.toList = none := by
  rw [parse]
  split
  · next current =>
    refine iff_of_false nofun ?_
    rintro ⟨-, other, -⟩
    exact other current
  · next other =>
    cases number? word.toList with
    | none => simp [other, eq_comm]
    | some found => simp

private theorem denotes_text (natural : 0 ≤ user.number.toInt) : Denotes user.text.toList user.number.toInt := by
  obtain ⟨n, same⟩ := Int.eq_ofNat_of_zero_le natural
  have digits : user.text.toList = ofNat n := by
    rw [UserId.text, intText, String.toList_ofList, same]
    rfl
  obtain ⟨decimal, value_eq⟩ := natural?_eq_some_iff.mp (natural?_ofNat n)
  have denotes := Denotes.unsigned decimal
  rw [← value_eq] at denotes
  rw [digits, same]
  exact denotes

/-- A word names the user who is current if it is one of the two that say so, and a user by number if it is one sign at
most and decimal digits with a value from zero to the last that a signed word holds; the user then has that very number.
Every other word is refused and named in the complaint. So the text of a user's number names that user. -/
theorem parse_accepts (word : String) :
    (parse word = .ok .current ↔ word = "current" ∨ word = "cur") ∧
      (∀ user, parse word = .ok (.id user) ↔ Denotes word.toList user.number.toInt ∧ 0 ≤ user.number.toInt) ∧
      ((∃ user, parse word = .ok (.id user)) ↔ NamesNumber word.toList) ∧
      (∀ e, parse word = .error e ↔
        e = ⟨word⟩ ∧ ¬ (word = "current" ∨ word = "cur") ∧ ¬ NamesNumber word.toList) ∧
      (number? word.toList = (signedWord? word.toList).bind fun w => if 0 ≤ w.toInt then some ⟨w⟩ else none) ∧
      ∀ user : UserId, 0 ≤ user.number.toInt → parse user.text = .ok (.id user) := by
  refine ⟨parse_current_iff, fun user => ?_, ?_, fun e => ?_, number?_eq_of_word word.toList, fun user natural => ?_⟩
  · rw [parse_id_iff, number?_eq_some_iff]
  · simp only [parse_id_iff]
    exact exists_number?_iff
  · rw [parse_error_iff, ← exists_number?_iff, ← Option.isSome_iff_exists, Option.not_isSome_iff_eq_none]
  · rw [parse_id_iff, number?_eq_some_iff]
    exact ⟨denotes_text natural, natural⟩

example : parse "-00" = .ok (.id UserId.system) := by decide

/-- The last number that a word holds, with a sign and zeros in front, and the first one beyond. -/
theorem parse_accepts_up_to_the_last :
    parse "+0002147483647" = .ok (.id ⟨2147483647⟩) ∧
      parse "2147483648" = .error ⟨"2147483648"⟩ ∧
      0 ≤ (⟨2147483647⟩ : UserId).number.toInt ∧
      parse (⟨2147483647⟩ : UserId).text = .ok (.id ⟨2147483647⟩) := by
  have natural : 0 ≤ (⟨2147483647⟩ : UserId).number.toInt := by decide
  have denotes : Denotes "+0002147483647".toList (⟨2147483647⟩ : UserId).number.toInt :=
    integer?_eq_some_iff.mp (by decide)
  obtain ⟨-, accepted, -, -, -, shown⟩ := parse_accepts "+0002147483647"
  obtain ⟨-, -, -, refused, -, -⟩ := parse_accepts "2147483648"
  have beyond : ¬ NamesNumber "2147483648".toList := by
    rintro ⟨n, read, -, upper⟩
    have value : n = 2147483648 := by
      have known : integer? 10 "2147483648".toList = some 2147483648 := by decide
      rw [integer?_eq_some_iff.mpr read] at known
      exact Option.some.inj known
    omega
  exact ⟨(accepted _).mpr ⟨denotes, natural⟩, (refused _).mpr ⟨rfl, by decide, beyond⟩, natural, shown _ natural⟩

end Overlays.UserArg
