import Overlays.CommandLine.Parser
import Overlays.Proofs.Checked
import Overlays.Proofs.Text.Splitting

/-!
Command lines that have switches in front of the verb and behind it, and then operands. The switches are read as if the
operands were not there, and the operands are kept until the end; those of a commit are then read as operations, each by
its first equals sign.
-/

set_option autoImplicit false
set_option relaxedAutoImplicit false

namespace Overlays

open Checked

namespace CommitOperation

/-- A text has an action in front of its first equals sign, and the package behind it. -/
structure Splits (text : String) (o : CommitOperation) : Prop where
  parts : text = action o.enable ++ "=" ++ o.package
  action_ends : '=' ∉ (action o.enable).toList

variable {text : String} {o : CommitOperation}

theorem action_ends (enable : Bool) : '=' ∉ (action enable).toList := by
  cases enable with
  | true => decide
  | false => decide

private theorem toList_text (o : CommitOperation) :
    o.text.toList = (action o.enable).toList ++ '=' :: o.package.toList := by
  simp [CommitOperation.text]

theorem parse_ok_iff : parse text = .ok o ↔ Splits text o := by
  constructor
  · intro h
    rw [parse] at h
    split at h
    · cases h
    · rename_i before after split
      obtain ⟨parts, -⟩ := splitAtFirst?_eq_some_iff.mp split
      have whole (enable : Bool) (word : String.ofList before = action enable) :
          Splits text ⟨enable, String.ofList after⟩ := by
        refine ⟨?_, action_ends enable⟩
        rw [← String.toList_inj, parts, ← word]
        simp
      dsimp only at h
      split at h
      · rename_i word
        cases h
        exact whole true word
      · split at h
        · rename_i word
          cases h
          exact whole false word
        · cases h
  · rintro ⟨parts, ends⟩
    have split : splitAtFirst? '=' text.toList = some ((action o.enable).toList, o.package.toList) := by
      refine splitAtFirst?_eq_some_iff.mpr ⟨?_, ends⟩
      rw [parts, ← toList_text, CommitOperation.text]
    obtain ⟨enable, package⟩ := o
    rw [parse, split]
    simp only [String.ofList_toList]
    cases enable with
    | true => rfl
    | false => rfl

end CommitOperation

namespace CommandLine

variable {verb : Option Verb} {v : Verb} {p : Progress} {g : Given} {args rest : List String} {arg : String}

namespace Progress

end Progress

end CommandLine

end Overlays
