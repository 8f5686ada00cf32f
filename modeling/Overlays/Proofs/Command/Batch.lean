import Overlays.Proofs.Checked
import Overlays.Proofs.Command.Effects
import Overlays.Proofs.Registry.NetEffect
import Overlays.Proofs.Registry.Requests

set_option autoImplicit false
set_option relaxedAutoImplicit false

namespace Overlays

open Checked PriorityList

section Requests

variable {type : RequestType} {package : String} {user : UserId} {q : Request}

@[simp] theorem RequestKind.known?_ofType (type : RequestType) : (ofType type).known? = some type := by
  cases type with
  | setEnabled => rfl
  | setDisabled => rfl

theorem Request.make_ok_iff :
    make type package user = .ok q ↔ q.kind = .ofType type ∧ q.package = package ∧ q.user = user := by
  rw [make, ofKind?]
  constructor
  · intro h
    split at h
    · rename_i made
      cases h
      split at made
      · cases made
      · cases made
        exact ⟨rfl, rfl, rfl⟩
    · cases h
  · rintro ⟨kind, rfl, rfl⟩
    rw [dif_neg q.package_ne, ← kind]

end Requests

namespace Command

variable {operations : List CommitOperation} {user : UserId} {t : Transaction} {qs : List Request}

/-- Requests ask one by one for what operations say, for a user. -/
def Ordered (user : UserId) (operations : List CommitOperation) (qs : List Request) : Prop :=
  List.Forall₂ (fun o q => Request.make (.ofFlag o.enable) o.package user = .ok q) operations qs

end Command

namespace Outcome

variable {e : Refusal}

end Outcome

namespace Batch

variable {path reason : String} {r r' : Registry} {files : MemoryFiles} {qs : List Request} {e : Refusal}

private theorem unrefused (known : ∀ q ∈ qs, q.kind.known? ≠ none) (made : r.commit ⟨qs⟩ = .ok r') :
    (¬∃ q r₁, r.ComesTo qs q r₁ ∧ find? q.package (r₁.overlays q.user) = none) ∧
      ¬∃ q r₁ o, r.ComesTo qs q r₁ ∧ find? q.package (r₁.overlays q.user) = some o ∧
        (o.canChange = false ∨ q.kind.known? = some .setEnabled ∧ o.state = .missingTarget) := by
  rw [Registry.comesTo_unknown_iff known, Registry.comesTo_blocked_iff known, made]
  simp

end Batch

namespace Command

variable {path : String} {r : Registry} {files : MemoryFiles} {operations : List CommitOperation} {user : UserId}
  {t : Transaction} {qs : List Request}

private theorem Ordered.known (h : Ordered user operations qs) : ∀ q ∈ qs, q.kind.known? ≠ none := by
  induction h with
  | nil => simp
  | cons made _ ih =>
    refine List.forall_mem_cons.mpr ⟨?_, ih⟩
    rw [(Request.make_ok_iff.mp made).1, RequestKind.known?_ofType]
    exact Option.some_ne_none _

private theorem Ordered.ne_nil (h : Ordered user operations qs) (some_ : operations ≠ []) : qs ≠ [] := by
  rintro rfl
  exact some_ (List.forall₂_nil_right_iff.mp h)

end Command

end Overlays
