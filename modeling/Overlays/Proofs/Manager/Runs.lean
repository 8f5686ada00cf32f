import Mathlib.Data.List.Perm.Basic
import Overlays.Proofs.Manager.AllOrNothing
import Overlays.Proofs.Registry.Edits

set_option autoImplicit false
set_option relaxedAutoImplicit false

namespace Overlays

open PriorityList Relation

namespace Call

/-- The registry after a call: with all that the call asks for if it can be done, and else as it was. -/
def next (c : Call) (r : Registry) : Registry := (c.effect? r).getD r

/-- Whether a call is to switch an overlay of a user off. -/
def disables (user : UserId) (name : String) : Call → Bool
  | .change c u => user = u && c.disables name
  | .commit t => t.requests.any (·.disables user name)
  | _ => false

variable {c : Call} {t : Transaction} {r r' : Registry}

theorem next_of_some (h : c.effect? r = some r') : c.next r = r' := by
  rw [next, h, Option.getD_some]

theorem next_of_none (h : c.effect? r = none) : c.next r = r := by
  rw [next, h, Option.getD_none]

theorem effect?_commit_eq_some_iff :
    (Call.commit t).effect? r = some r' ↔ t.isEmpty = false ∧ r.commit t = .ok r' := by
  rw [effect?]
  cases t.isEmpty with
  | true => simp
  | false =>
    cases r.commit t with
    | error e => simp [Except.toOption]
    | ok r₁ => simp [Except.toOption]

theorem effect?_commit_of_error {e : Refusal} (h : r.commit t = .error e) :
    (Call.commit t).effect? r = none := by
  rw [effect?, h]
  cases t.isEmpty with
  | true => rfl
  | false => rfl

theorem effect?_commit_of_empty (h : t.isEmpty = true) : (Call.commit t).effect? r = none := by
  rw [effect?, h]
  rfl

end Call

theorem Manager.run_files {σ : Type} [FileStore σ] {path : String} {files : σ} {r : Registry}
    (loaded : load path files = .ok r) (c : Call) :
    (run path c files).2 = files ∧ c.next r = r ∨
      (run path c files).2 = (FileStore.write files path (c.next r).toText).2 := by
  cases c with
  | all user => exact .inl ⟨rfl, rfl⟩
  | target name user => exact .inl ⟨rfl, rfl⟩
  | info package user => exact .inl ⟨rfl, rfl⟩
  | lookup loaded resource user => exact .inl ⟨rfl, rfl⟩
  | change change user =>
    cases made : r.change? user change with
    | none =>
      rw [run_change_of_refused loaded made]
      exact .inl ⟨rfl, Call.next_of_none made⟩
    | some r' =>
      have effect : (Call.change change user).effect? r = some r' := made
      rw [run_change_of_made loaded made, Call.next_of_some effect]
      exact .inr rfl
  | commit t =>
    cases made : r.commit t with
    | error e =>
      rw [run_commit_of_refused loaded made]
      exact .inl ⟨rfl, Call.next_of_none (Call.effect?_commit_of_error made)⟩
    | ok r' =>
      cases nothing : t.isEmpty with
      | true =>
        rw [run_commit_of_empty loaded made nothing]
        exact .inl ⟨rfl, Call.next_of_none (Call.effect?_commit_of_empty nothing)⟩
      | false =>
        have effect := Call.effect?_commit_eq_some_iff.mpr ⟨nothing, made⟩
        rw [run_commit_of_made loaded made nothing, Call.next_of_some effect]
        exact .inr rfl

namespace Registry

/-- The registry after calls that are made one after the other. -/
def after (r : Registry) (cs : List Call) : Registry := cs.foldl (fun r c => c.next r) r

/-- Whether a call that is carried out among others switches an overlay of a user off. -/
def disabledIn (user : UserId) (name : String) : Registry → List Call → Bool
  | _, [] => false
  | r, c :: cs => (c.disables user name && (c.effect? r).isSome) || disabledIn user name (c.next r) cs

theorem after_append (r : Registry) (cs cs' : List Call) : r.after (cs ++ cs') = (r.after cs).after cs' :=
  List.foldl_append

theorem edited_next (r : Registry) (c : Call) :
    r.Edited (fun user name => (c.disables user name && (c.effect? r).isSome) = true) (c.next r) := by
  cases effect : c.effect? r with
  | none =>
    rw [Call.next_of_none effect]
    exact .refl _ r
  | some r' =>
    rw [Call.next_of_some effect]
    cases c with
    | change change user =>
      refine (edited_of_change? effect).mono ?_
      intro u name asked
      simp [Call.disables, asked]
    | commit t =>
      obtain ⟨-, made⟩ := Call.effect?_commit_eq_some_iff.mp effect
      refine (edited_of_commit made).mono ?_
      intro user name asked
      simpa [Call.disables] using asked
    | all user => cases effect
    | target name user => cases effect
    | info package user => cases effect
    | lookup loaded resource user => cases effect

theorem edited_after (r : Registry) (cs : List Call) :
    r.Edited (fun user name => r.disabledIn user name cs = true) (r.after cs) := by
  induction cs generalizing r with
  | nil => exact .refl _ r
  | cons c cs ih =>
    refine ((edited_next r c).mono ?_).trans ((ih (c.next r)).mono ?_)
    · intro user name here
      simp only [disabledIn, here, Bool.true_or]
    · intro user name later
      simp only [disabledIn, later, Bool.or_true]

end Registry

/-- All of an overlay but its state. -/
def Overlay.fixed (o : Overlay) : String × String × Option String × Bool × SortedMap String String :=
  (o.name, o.target, o.category, o.isMutable, o.resources)

theorem Overlay.fixed_withState (o : Overlay) (s : OverlayState) : (o.withState s).fixed = o.fixed := rfl

namespace Registry

/-- A registry with the same targets, the same users, and for each user the same overlays in some order and in some
states. -/
structure Conserved (r r' : Registry) : Prop where
  targets_eq : r'.targets = r.targets
  users_eq : r'.users.keys = r.users.keys
  overlays_perm : ∀ user, ((r'.overlays user).map Overlay.fixed).Perm ((r.overlays user).map Overlay.fixed)
  distinct_iff : ∀ user,
    ((r'.overlays user).map Overlay.name).Nodup ↔ ((r.overlays user).map Overlay.name).Nodup

/-- No calls lose, add or alter an overlay, a target or a user. -/
theorem conserved_after (r : Registry) (cs : List Call) : r.Conserved (r.after cs) := by
  have edited := edited_after r cs
  refine ⟨edited.targets_eq, edited.users_eq, ?_, ?_⟩
  · intro user
    exact edits_map_perm Overlay.fixed_withState (edited.edits user)
  · intro user
    have names := edits_map_perm Overlay.withState_name (edited.edits user)
    exact names.nodup_iff

end Registry

namespace Overlay

/-- An overlay that is protected against changes. -/
def IsFrozen (o : Overlay) : Prop := o.isMutable = false ∨ o.state = .enabledImmutable

instance : DecidablePred IsFrozen := fun o =>
  inferInstanceAs (Decidable (o.isMutable = false ∨ o.state = .enabledImmutable))

theorem isFrozen_iff {o : Overlay} : o.IsFrozen ↔ o.canChange = false := by
  rw [IsFrozen, canChange]
  cases o.isMutable with
  | false => simp
  | true => simp

/-- What can become of an overlay. A protected one stays as it is, none becomes protected or loses its protection, and
none is put into a state that only a state file gives. -/
structure Fate (o o' : Overlay) : Prop where
  fixed_eq : o'.fixed = o.fixed
  frozen_iff : o'.IsFrozen ↔ o.IsFrozen
  kept_of_frozen : o.IsFrozen → o' = o
  kept_of_given : o'.state = .enabledImmutable ∨ o'.state = .missingTarget → o' = o

private theorem Fate.refl (o : Overlay) : o.Fate o := ⟨rfl, .rfl, fun _ => rfl, fun _ => rfl⟩

private theorem Fate.turn {off : String → Prop} {o o' o'' : Overlay} (h : o.Fate o') (turned : o'.Turn off o'') :
    o.Fate o'' := by
  have changeable : ¬ o'.IsFrozen := by simp [isFrozen_iff, turned.canChange_left]
  have changeable' : ¬ o''.IsFrozen := by simp [isFrozen_iff, turned.canChange_right]
  have not_frozen : ¬ o.IsFrozen := fun frozen => changeable (h.frozen_iff.mpr frozen)
  refine ⟨(turned.apply_eq fixed_withState).trans h.fixed_eq, ?_, ?_, ?_⟩
  · exact iff_of_false changeable' not_frozen
  · intro frozen
    exact absurd frozen not_frozen
  · intro given
    rcases given with protecting | missing
    · exact absurd (.inr protecting) changeable'
    · exact absurd missing turned.state_ne_missingTarget

theorem fate_of_turns {off : String → Prop} {o o' : Overlay} (h : ReflTransGen (Turn off) o o') :
    o.Fate o' := by
  induction h with
  | refl => exact .refl o
  | tail _ turned ih => exact ih.turn turned

end Overlay

/-- Among overlays that were changed the protected ones are those that were protected before, in the same order, and
each overlay has its own one there. -/
structure FrozenKept (os os' : List Overlay) : Prop where
  order : os'.filter (·.IsFrozen) = os.filter (·.IsFrozen)
  fates : Multiset.Rel Overlay.Fate (os : Multiset Overlay) os'

/-- From each point of a run to each later one, protected overlays keep their states and their order. -/
theorem Registry.frozenKept_after (r : Registry) (earlier later : List Call) (user : UserId) :
    FrozenKept ((r.after earlier).overlays user) ((r.after (earlier ++ later)).overlays user) := by
  rw [after_append]
  have edits := (edited_after (r.after earlier) later).edits user
  refine ⟨?_, ?_⟩
  · apply edits_filter_eq ?_ edits
    intro o changeable
    simp [Overlay.isFrozen_iff, changeable]
  · exact (edits_matched edits).mono fun o _ o' _ turns => Overlay.fate_of_turns turns

end Overlays
