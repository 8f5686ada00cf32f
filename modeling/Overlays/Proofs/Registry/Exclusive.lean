import Mathlib.Data.List.Forall2
import Overlays.Proofs.Manager.Runs
import Overlays.Proofs.Registry.Targets

set_option autoImplicit false
set_option relaxedAutoImplicit false

namespace Overlays

open PriorityList

/-- How far an exclusive enabling reaches: to all overlays of the target, or only to those in the same category. -/
inductive Reach where
  | target
  | category
deriving DecidableEq

namespace Reach

def enabling (name : String) : Reach → Change
  | .target => .setEnabledExclusive name true
  | .category => .setEnabledExclusiveInCategory name

/-- Whether an overlay can be enabled with this reach. One without a category has no others in its category. -/
def isGiven (o : Overlay) : Reach → Bool
  | .target => true
  | .category => o.category.isSome

/-- Whether enabling one overlay of a target reaches another one of that target. -/
def includes (o x : Overlay) : Reach → Bool
  | .target => true
  | .category => x.category = o.category

/-- Whether an overlay gives way when another one is enabled exclusively. -/
def yields (reach : Reach) (o x : Overlay) : Bool :=
  x.name ≠ o.name ∧ x.target = o.target ∧ reach.includes o x ∧ x.canChange ∧ x.state.isEnabled

/-- An overlay after another one, or itself, was enabled exclusively. -/
def settle (reach : Reach) (o x : Overlay) : Overlay :=
  if x.name = o.name then x.withState .enabled
  else if reach.yields o x then x.withState .disabled
  else x

variable {reach : Reach} {name : String} {o x : Overlay} {os os' : List Overlay}

private theorem apply_enabling_eq_some_iff :
    (reach.enabling name).apply os = some os' ↔ ∃ o switched, find? name os = some o ∧
      reach.isGiven o = true ∧ setEnabled name true os = some switched ∧
      os' = disableOthers name (fun x => x.target = o.target ∧ reach.includes o x) switched := by
  cases reach with
  | target =>
    rw [enabling, Change.apply, setEnabledExclusive_eq_some_iff]
    simp [isGiven, includes]
  | category =>
    rw [enabling, Change.apply, setEnabledExclusiveInCategory_eq_some_iff]
    constructor
    · intro h
      obtain ⟨o, category, switched, found, categorized, done, rfl⟩ := h
      exact ⟨o, switched, found, by simp [isGiven, categorized], done, by simp [includes, categorized]⟩
    · intro h
      obtain ⟨o, switched, found, given, done, rfl⟩ := h
      obtain ⟨category, categorized⟩ := Option.isSome_iff_exists.mp given
      exact ⟨o, category, switched, found, categorized, done, by simp [includes, categorized]⟩

private theorem isSome_apply_enabling_iff : ((reach.enabling name).apply os).isSome = true ↔
    (setEnabled name true os).isSome = true ∧ ∀ o ∈ find? name os, reach.isGiven o = true := by
  simp only [Option.isSome_iff_exists, apply_enabling_eq_some_iff]
  constructor
  · intro h
    obtain ⟨-, o, switched, found, given, done, -⟩ := h
    refine ⟨⟨switched, done⟩, ?_⟩
    intro x same
    obtain rfl : o = x := Option.some.inj (found.symm.trans same)
    exact given
  · intro h
    obtain ⟨⟨switched, done⟩, given⟩ := h
    obtain ⟨pre, o, post, first, -⟩ := setEnabled_eq_some_iff.mp done
    exact ⟨_, o, switched, first.find?_eq, given o first.find?_eq, done, rfl⟩

end Reach

namespace PriorityList

/-- The overlays of some names are put into a state, each where it stands. -/
def withStates (names : List String) (s : OverlayState) (os : List Overlay) : List Overlay :=
  os.map fun x => if x.name ∈ names then x.withState s else x

/-- The names of the overlays that are enabled in the one list and disabled at the same place in the other. -/
def switchedOff (os os' : List Overlay) : List String :=
  ((os.zip os').filter fun p => p.1.state.isEnabled ∧ p.2.state = .disabled).map (·.1.name)

variable {name : String} {names : List String} {s : OverlayState} {os os' : List Overlay} {o : Overlay}

private theorem name_ite_withState (x : Overlay) :
    (if x.name ∈ names then x.withState s else x).name = x.name := by
  split
  · rfl
  · rfl

private theorem names_withStates (names : List String) (s : OverlayState) (os : List Overlay) :
    (withStates names s os).map Overlay.name = os.map Overlay.name :=
  names_map name_ite_withState os

private theorem withStates_withStates (name : String) (names : List String) (s : OverlayState) (os : List Overlay) :
    withStates names s (withStates [name] s os) = withStates (name :: names) s os := by
  simp only [withStates, List.map_map]
  apply List.map_congr_left
  intro x _
  rw [Function.comp_apply]
  by_cases here : x.name = name
  · by_cases again : name ∈ names
    · simp [here, again, Overlay.withState]
    · simp [here, again, Overlay.withState]
  · simp [here]

private theorem changeable?_withStates {other : String} (h : (changeable? other os).isSome) (names : List String)
    (hs : s ≠ .enabledImmutable) : (changeable? other (withStates names s os)).isSome := by
  obtain ⟨o, found⟩ := Option.isSome_iff_exists.mp h
  obtain ⟨named, changeable⟩ := Option.filter_eq_some_iff.mp found
  rw [changeable?, withStates, find?_map name_ite_withState, named, Option.map_some]
  split
  · rw [Option.filter_some_pos (Overlay.canChange_withState changeable hs)]
    rfl
  · rw [Option.filter_some_pos changeable]
    rfl

private theorem setEnabled_eq_some_iff_of_distinct (distinct : (os.map Overlay.name).Nodup) {enable : Bool} :
    setEnabled name enable os = some os' ↔ ∃ o, changeable? name os = some o ∧
      ¬(enable = true ∧ o.state = .missingTarget) ∧ os' = withStates [name] (.ofFlag enable) os := by
  have switched {pre post : List Overlay} {o : Overlay} (first : FirstAt name os pre o post) :
      pre ++ o.withState (.ofFlag enable) :: post = withStates [name] (.ofFlag enable) os := by
    simp only [withStates, List.mem_singleton]
    exact first.replaced_eq_map distinct fun x => x.withState (.ofFlag enable)
  rw [setEnabled_eq_some_iff]
  constructor
  · intro h
    obtain ⟨pre, o, post, first, changeable, present, rfl⟩ := h
    exact ⟨o, changeable?_eq_some_iff.mpr ⟨⟨pre, post, first⟩, changeable⟩, present, switched first⟩
  · intro h
    obtain ⟨o, found, present, rfl⟩ := h
    obtain ⟨⟨pre, post, first⟩, changeable⟩ := changeable?_eq_some_iff.mp found
    exact ⟨pre, o, post, first, changeable, present, (switched first).symm⟩

end PriorityList

namespace Reach

variable {reach : Reach} {name : String} {o x : Overlay} {os os' : List Overlay}

private theorem apply_enabling_of_distinct (distinct : (os.map Overlay.name).Nodup)
    (h : (reach.enabling name).apply os = some os') :
    ∃ o, changeable? name os = some o ∧ o.state ≠ .missingTarget ∧ reach.isGiven o = true ∧
      os' = os.map (reach.settle o) := by
  obtain ⟨o, switched, found, given, done, rfl⟩ := apply_enabling_eq_some_iff.mp h
  obtain ⟨x, changeable, present, rfl⟩ := (setEnabled_eq_some_iff_of_distinct distinct).mp done
  obtain rfl : x = o := Option.some.inj ((Option.filter_eq_some_iff.mp changeable).1.symm.trans found)
  have named := (name_of_find? found).2
  refine ⟨x, changeable, fun missing => present ⟨rfl, missing⟩, given, ?_⟩
  rw [disableOthers, withStates, List.map_map]
  apply List.map_congr_left
  intro y _
  -- the conditions are looked at after the enabling, which has left them as they were for all other overlays
  rw [Function.comp_apply, settle, named]
  by_cases here : y.name = name
  · simp [here, OverlayState.ofFlag]
  · simp [here, yields, named, and_comm, and_left_comm, and_assoc]

private theorem yields_iff : reach.yields o x = true ↔ x.name ≠ o.name ∧ x.target = o.target ∧
    reach.includes o x = true ∧ x.canChange = true ∧ x.state.isEnabled = true :=
  decide_eq_true_iff

end Reach

/-- What becomes of an overlay when one of its list is enabled exclusively. -/
structure Overlay.Settled (reach : Reach) (o x x' : Overlay) : Prop where
  fixed_eq : x'.fixed = x.fixed
  /-- Within the target the overlay itself is enabled then, and those that were so and cannot be changed or reached. -/
  enabled_iff : x.target = o.target → (x'.state.isEnabled = true ↔
    x.name = o.name ∨ x.state.isEnabled = true ∧ (x.canChange = false ∨ reach.includes o x = false))
  missing_kept : x.name ≠ o.name → x.state = .missingTarget → x'.state = .missingTarget
  other_target : x.target ≠ o.target → x' = x

namespace Reach

variable {reach : Reach} {o x : Overlay} {os : List Overlay}

private theorem settle_of_yields (h : reach.yields o x = true) : reach.settle o x = x.withState .disabled := by
  rw [settle, if_neg (yields_iff.mp h).1, if_pos h]

private theorem settle_of_not_yields (other : x.name ≠ o.name) (h : ¬ reach.yields o x = true) :
    reach.settle o x = x := by
  rw [settle, if_neg other, if_neg h]

private theorem settled_settle (same : x.name = o.name → x = o) : o.Settled reach x (reach.settle o x) := by
  by_cases here : x.name = o.name
  · obtain rfl := same here
    rw [settle, if_pos rfl]
    exact ⟨rfl, fun _ => iff_of_true rfl (.inl rfl), fun other => absurd rfl other, fun other => absurd rfl other⟩
  by_cases yielding : reach.yields o x = true
  · obtain ⟨-, inside, reached, changeable, enabled⟩ := yields_iff.mp yielding
    rw [settle_of_yields yielding]
    refine ⟨rfl, fun _ => ?_, fun _ missing => ?_, fun outside => absurd inside outside⟩
    · refine iff_of_false Bool.false_ne_true ?_
      rintro (own | ⟨-, fixed | spared⟩)
      · exact here own
      · exact Bool.false_ne_true (fixed.symm.trans changeable)
      · exact Bool.false_ne_true (spared.symm.trans reached)
    · rw [missing] at enabled
      cases enabled
  · rw [settle_of_not_yields here yielding]
    refine ⟨rfl, fun inside => ?_, fun _ missing => missing, fun _ => rfl⟩
    constructor
    · intro enabled
      refine .inr ⟨enabled, ?_⟩
      by_contra both
      obtain ⟨changeable, reached⟩ := not_or.mp both
      exact yielding (yields_iff.mpr
        ⟨here, inside, by simpa using reached, by simpa using changeable, enabled⟩)
    · rintro (own | ⟨enabled, -⟩)
      · exact absurd own here
      · exact enabled

private theorem switchedOff_settle (reach : Reach) (o : Overlay) (os : List Overlay) :
    switchedOff os (os.map (reach.settle o)) = (os.filter (reach.yields o)).map Overlay.name := by
  have chosen (x : Overlay) :
      decide (x.state.isEnabled = true ∧ (reach.settle o x).state = .disabled) = reach.yields o x := by
    rw [Bool.eq_iff_iff, decide_eq_true_iff]
    constructor
    · intro h
      obtain ⟨enabled, disabled⟩ := h
      by_contra standing
      by_cases own : x.name = o.name
      · rw [settle, if_pos own] at disabled
        cases disabled
      · rw [settle_of_not_yields own standing] at disabled
        rw [disabled] at enabled
        cases enabled
    · intro h
      rw [settle_of_yields h]
      exact ⟨(yields_iff.mp h).2.2.2.2, rfl⟩
  have paired : os.zip (os.map (reach.settle o)) = os.map fun x => (x, reach.settle o x) := by
    rw [← List.zip_map', List.map_id']
  rw [switchedOff, paired, List.filter_map, List.map_map]
  congr 1
  apply List.filter_congr
  intro x _
  exact chosen x

private theorem map_settle_eq {names : List String} (listed : ∀ x ∈ os, x.name ∈ names ↔ reach.yields o x = true) :
    os.map (reach.settle o) = withStates names .disabled (withStates [o.name] .enabled os) := by
  rw [withStates, withStates, List.map_map]
  apply List.map_congr_left
  intro x member
  rw [Function.comp_apply]
  by_cases own : x.name = o.name
  · have standing : o.name ∉ names := fun yielding =>
      (yields_iff.mp ((listed x member).mp (own ▸ yielding))).1 own
    simp [settle, own, standing]
  · by_cases yielding : reach.yields o x = true
    · simp [settle, own, yielding, (listed x member).mpr yielding]
    · have standing : x.name ∉ names := fun given => yielding ((listed x member).mp given)
      simp [settle, own, yielding, standing]

end Reach

namespace Registry

variable {r r' : Registry} {user : UserId}

private theorem changeAll?_disabling {names : List String} {os : List Overlay}
    (distinct : (os.map Overlay.name).Nodup) (each : ∀ name ∈ names, (changeable? name os).isSome) :
    (r.withOverlays user os).changeAll? (names.map fun name => (user, .setEnabled name false)) =
      some (r.withOverlays user (withStates names .disabled os)) := by
  induction names generalizing os with
  | nil => simp [changeAll?, withStates]
  | cons name names ih =>
    obtain ⟨here, below⟩ := List.forall_mem_cons.mp each
    obtain ⟨o, found⟩ := Option.isSome_iff_exists.mp here
    have switched : setEnabled name false os = some (withStates [name] .disabled os) :=
      (setEnabled_eq_some_iff_of_distinct distinct).mpr ⟨o, found, by simp, rfl⟩
    have first : (r.withOverlays user os).change? user (.setEnabled name false) =
        some (r.withOverlays user (withStates [name] .disabled os)) := by
      rw [change?_eq_some_iff, overlays_withOverlays_self]
      exact ⟨_, switched, withOverlays_withOverlays r user os _⟩
    have later : ∀ other ∈ names, (changeable? other (withStates [name] .disabled os)).isSome := by
      intro other listed
      exact changeable?_withStates (below other listed) [name] (by decide)
    rw [← names_withStates [name] .disabled os] at distinct
    rw [List.map_cons, changeAll?, List.foldlM_cons, first, ← withStates_withStates name names]
    exact ih distinct later

/-- Calls that enable one overlay of a user and then disable others. -/
def callsOneByOne (user : UserId) (name : String) (others : List String) : List (UserId × Change) :=
  (user, .setEnabled name true) :: others.map fun other => (user, .setEnabled other false)

/-- A registry in which an overlay of a user was enabled exclusively. -/
structure ExclusivelyEnabled (r : Registry) (user : UserId) (reach : Reach) (o : Overlay) (r' : Registry) : Prop where
  settled : List.Forall₂ (o.Settled reach) (r.overlays user) (r'.overlays user)
  others : ∀ u, u ≠ user → r'.overlays u = r.overlays u
  targets_eq : r'.targets = r.targets
  users_eq : r'.users.keys = r.users.keys
  /-- It is the same to enable the overlay and then to disable, one by one, those that were disabled with it. -/
  one_by_one : ∀ others : List String, others.Perm (switchedOff (r.overlays user) (r'.overlays user)) →
    (∀ made ∈ (r.answers (callsOneByOne user o.name others)).1, made = true) ∧
      (r.answers (callsOneByOne user o.name others)).2 = r'

private theorem changeAll?_one_by_one {reach : Reach} {o : Overlay} {names : List String} {os : List Overlay}
    (overlays_eq : r.overlays user = os) (distinct : (os.map Overlay.name).Nodup)
    (found : changeable? o.name os = some o) (present : o.state ≠ .missingTarget)
    (perm : names.Perm (switchedOff os (os.map (reach.settle o)))) :
    r.changeAll? (callsOneByOne user o.name names) = some (r.withOverlays user (os.map (reach.settle o))) := by
  have mem_names (name : String) : name ∈ names ↔ ∃ x ∈ os, reach.yields o x = true ∧ x.name = name := by
    rw [perm.mem_iff, Reach.switchedOff_settle]
    simp [and_assoc]
  have listed : ∀ x ∈ os, x.name ∈ names ↔ reach.yields o x = true := by
    intro x member
    rw [mem_names]
    constructor
    · intro h
      obtain ⟨y, member', yielding, same⟩ := h
      rwa [List.inj_on_of_nodup_map distinct member member' same.symm]
    · intro yielding
      exact ⟨x, member, yielding, rfl⟩
  have each : ∀ name ∈ names, (changeable? name (withStates [o.name] .enabled os)).isSome := by
    intro name given
    obtain ⟨x, member, yielding, rfl⟩ := (mem_names name).mp given
    refine changeable?_withStates ?_ [o.name] (by decide)
    rw [changeable?, find?_eq_some_of_mem distinct member,
      Option.filter_some_pos (Reach.yields_iff.mp yielding).2.2.2.1]
    rfl
  have first : r.change? user (.setEnabled o.name true) =
      some (r.withOverlays user (withStates [o.name] .enabled os)) := by
    rw [change?_eq_some_iff, overlays_eq]
    exact ⟨_, (setEnabled_eq_some_iff_of_distinct distinct).mpr ⟨o, found, fun both => present both.2, rfl⟩, rfl⟩
  rw [← names_withStates [o.name] .enabled os] at distinct
  rw [callsOneByOne, changeAll?, List.foldlM_cons, first, Reach.map_settle_eq listed]
  exact changeAll?_disabling distinct each

/-- An overlay can be enabled exclusively whenever it can be enabled, and for its category if it has one. Then the overlays
within reach that can be changed give way to it, and everything else stays. -/
theorem exclusive_enabling (distinct : ((r.overlays user).map Overlay.name).Nodup) (reach : Reach)
    (name : String) :
    ((r.answer user (reach.enabling name)).1 = true ↔ (r.answer user (.setEnabled name true)).1 = true ∧
      ∀ o ∈ find? name (r.overlays user), reach.isGiven o = true) ∧
    ((r.answer user (reach.enabling name)).1 = false → (r.answer user (reach.enabling name)).2 = r) ∧
    ∀ r', r.answer user (reach.enabling name) = (true, r') →
      ∃ o, find? name (r.overlays user) = some o ∧ r.ExclusivelyEnabled user reach o r' := by
  refine ⟨?_, answer_snd_of_false, ?_⟩
  · rw [answer_fst, answer_fst]
    exact Reach.isSome_apply_enabling_iff
  · intro r' done
    obtain ⟨os', made, rfl⟩ := change?_eq_some_iff.mp (answer_eq_true_iff.mp done)
    obtain ⟨o, changeable, present, -, rfl⟩ := Reach.apply_enabling_of_distinct distinct made
    obtain ⟨found, -⟩ := Option.filter_eq_some_iff.mp changeable
    obtain ⟨member, rfl⟩ := name_of_find? found
    have after : (r.withOverlays user ((r.overlays user).map (reach.settle o))).overlays user =
        (r.overlays user).map (reach.settle o) :=
      overlays_withOverlays_self r user _
    refine ⟨o, found, ?_, ?_, rfl, users_withOverlays (List.ne_nil_of_mem member) _, ?_⟩
    · rw [after, List.forall₂_map_right_iff, List.forall₂_same]
      intro x member'
      exact Reach.settled_settle fun same => List.inj_on_of_nodup_map distinct member' member same
    · intro u other
      exact overlays_withOverlays_ne r other _
    · intro names perm
      rw [after] at perm
      exact changeAll?_eq_some_iff.mp (changeAll?_one_by_one rfl distinct changeable present perm)

/-- Overlays of one target that are enabled, fixed, without a target and in another category, and one of another target. -/
private def assorted (dim glow bold : OverlayState) : Registry where
  targets := ∅
  users := ⟨[(⟨0⟩, [⟨"dim", "app", some "theme", dim, true, ∅⟩, ⟨"glow", "app", some "theme", glow, true, ∅⟩,
    ⟨"bold", "app", some "font", bold, true, ∅⟩, ⟨"rigid", "app", some "theme", .enabledImmutable, true, ∅⟩,
    ⟨"still", "app", some "theme", .enabled, false, ∅⟩, ⟨"lost", "app", some "theme", .missingTarget, true, ∅⟩,
    ⟨"frame", "shell", some "theme", .enabled, true, ∅⟩]),
    (⟨10⟩, [⟨"glow", "app", some "theme", .enabled, true, ∅⟩])], List.pairwise_pair.mpr rfl⟩

theorem exclusive_enabling_of_assorted :
    (((assorted .disabled .enabled .enabled).overlays ⟨0⟩).map Overlay.name).Nodup ∧
      (∃ o, (assorted .disabled .enabled .enabled).ExclusivelyEnabled ⟨0⟩ .category o
        (assorted .enabled .disabled .enabled)) ∧
      ∃ o, (assorted .disabled .enabled .enabled).ExclusivelyEnabled ⟨0⟩ .target o
          (assorted .enabled .disabled .disabled) ∧
        ((assorted .disabled .enabled .enabled).answers (callsOneByOne ⟨0⟩ o.name ["bold", "glow"])).2 =
          assorted .enabled .disabled .disabled := by
  have distinct : (((assorted .disabled .enabled .enabled).overlays ⟨0⟩).map Overlay.name).Nodup := by decide
  obtain ⟨o, -, themed⟩ := (exclusive_enabling distinct .category "dim").2.2
    (assorted .enabled .disabled .enabled) rfl
  obtain ⟨o', -, alone⟩ := (exclusive_enabling distinct .target "dim").2.2
    (assorted .enabled .disabled .disabled) rfl
  have turned : ["bold", "glow"].Perm (switchedOff ((assorted .disabled .enabled .enabled).overlays ⟨0⟩)
      ((assorted .enabled .disabled .disabled).overlays ⟨0⟩)) := List.Perm.swap "glow" "bold" []
  exact ⟨distinct, ⟨o, themed⟩, o', alone, (alone.one_by_one ["bold", "glow"] turned).2⟩

end Registry

end Overlays
