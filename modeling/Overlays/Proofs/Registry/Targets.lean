import Overlays.Proofs.Registry.NetEffect

/-!
The overlays of one target within the priority list of a user. A change to an overlay is carried out within the list of
its own target exactly as within the whole list, and the lists of all other targets stay as they are.
-/

set_option autoImplicit false
set_option relaxedAutoImplicit false

namespace Overlays

open PriorityList

namespace PriorityList

/-- The overlays of a target, in their order. -/
def ofTarget (target : String) (os : List Overlay) : List Overlay := os.filter (·.target = target)

variable {name target : String} {os os' pre post : List Overlay} {o : Overlay}

theorem ofTarget_append (target : String) (os os' : List Overlay) :
    ofTarget target (os ++ os') = ofTarget target os ++ ofTarget target os' :=
  List.filter_append os os'

theorem ofTarget_cons_of_eq (h : o.target = target) (os : List Overlay) :
    ofTarget target (o :: os) = o :: ofTarget target os :=
  List.filter_cons_of_pos (decide_eq_true h)

theorem ofTarget_cons_of_ne (h : target ≠ o.target) (os : List Overlay) :
    ofTarget target (o :: os) = ofTarget target os :=
  List.filter_cons_of_neg (by simpa using Ne.symm h)

theorem mem_ofTarget_iff : o ∈ ofTarget target os ↔ o ∈ os ∧ o.target = target := by
  rw [ofTarget, List.mem_filter, decide_eq_true_eq]

theorem FirstAt.ofTarget (h : FirstAt name os pre o post) :
    FirstAt name (ofTarget o.target os) (ofTarget o.target pre) o (ofTarget o.target post) := by
  refine ⟨?_, h.name_eq, ?_⟩
  · rw [h.list_eq, ofTarget_append, ofTarget_cons_of_eq rfl]
  · intro x hx
    exact h.before_ne x (mem_ofTarget_iff.mp hx).1

private theorem find?_ofTarget (found : find? name os = some o) : find? name (ofTarget o.target os) = some o := by
  obtain ⟨pre, post, first⟩ := find?_eq_some_iff.mp found
  exact first.ofTarget.find?_eq

private theorem ofTarget_disableOthers (target name : String) (p : Overlay → Bool) (os : List Overlay) :
    ofTarget target (disableOthers name p os) = disableOthers name p (ofTarget target os) := by
  rw [ofTarget, disableOthers, List.filter_map, disableOthers, ofTarget]
  congr 1
  apply List.filter_congr
  intro x _
  rw [Function.comp_apply]
  split
  · rfl
  · rfl

private theorem isSome_setEnabled (name : String) (enable : Bool) (os : List Overlay) :
    (setEnabled name enable os).isSome =
      (changeable? name os).any fun o => !(enable && o.state = .missingTarget) := by
  rw [setEnabled]
  cases changeable? name os with
  | none => rfl
  | some o =>
    simp only [Option.bind_eq_bind, Option.bind_some, Option.any_some]
    by_cases refused : enable = true ∧ o.state = .missingTarget
    · simp [refused]
    · rw [if_neg refused]
      cases enable with
      | false => rfl
      | true => simpa using refused

private theorem isSome_setEnabledExclusive (name : String) (enable : Bool) (os : List Overlay) :
    (setEnabledExclusive name enable os).isSome =
      ((find? name os).isSome && (setEnabled name enable os).isSome) := by
  rw [setEnabledExclusive]
  cases find? name os with
  | none => rfl
  | some o =>
    cases setEnabled name enable os with
    | none => rfl
    | some switched => rfl

private theorem isSome_setEnabledExclusiveInCategory (name : String) (os : List Overlay) :
    (setEnabledExclusiveInCategory name os).isSome =
      (((find? name os).bind (·.category)).isSome && (setEnabled name true os).isSome) := by
  rw [setEnabledExclusiveInCategory]
  cases find? name os with
  | none => rfl
  | some o =>
    cases categorized : o.category with
    | none => simp [categorized]
    | some category =>
      cases setEnabled name true os with
      | none => simp [categorized]
      | some switched => simp [categorized]

private theorem isSome_setPriority (name parent : String) (os : List Overlay) :
    (setPriority name parent os).isSome = (name ≠ parent &&
      (changeable? name os).any fun o => (find? parent os).any fun q => o.target = q.target) := by
  rw [setPriority]
  by_cases distinct : name = parent
  · simp [distinct]
  · rw [if_neg distinct]
    cases changeable? name os with
    | none => simp
    | some o =>
      cases find? parent os with
      | none => simp
      | some q =>
        by_cases same : o.target = q.target
        · simp [distinct, same]
        · simp [same]

private theorem disableOthers_eq_self {p : Overlay → Bool} (spared : ∀ x ∈ os, p x = false) :
    disableOthers name p os = os := by
  rw [disableOthers]
  refine (List.map_congr_left fun x hx => ?_).trans (List.map_id' os)
  rw [if_neg]
  intro chosen
  rw [spared x hx] at chosen
  exact absurd chosen.2.2.2 (by decide)

end PriorityList

/-- The name of the overlay that a change is about. -/
def Change.name : Change → String
  | .setEnabled name _ | .setEnabledExclusive name _ | .setEnabledExclusiveInCategory name
  | .setPriority name _ | .setHighestPriority name | .setLowestPriority name => name

/-- A change about one overlay takes place within the overlays of its target. -/
structure Change.Confined (c : Change) (os os' : List Overlay) (o : Overlay) : Prop where
  found : find? c.name os = some o
  inside : c.apply (ofTarget o.target os) = some (ofTarget o.target os')
  outside : ∀ target, target ≠ o.target → ofTarget target os' = ofTarget target os

namespace Change

variable {name parent : String} {enable : Bool} {os os' pre post : List Overlay} {o : Overlay}

private theorem confined_setEnabled (h : PriorityList.setEnabled name enable os = some os') :
    ∃ o, (setEnabled name enable).Confined os os' o := by
  obtain ⟨pre, o, post, first, changeable, present, rfl⟩ := setEnabled_eq_some_iff.mp h
  have kept (s : OverlayState) : (o.withState s).target = o.target := rfl
  refine ⟨o, first.find?_eq, ?_, ?_⟩
  · rw [ofTarget_append, ofTarget_cons_of_eq (kept _)]
    exact setEnabled_eq_some_iff.mpr ⟨_, o, _, first.ofTarget, changeable, present, rfl⟩
  · intro target other
    have other' : target ≠ (o.withState (.ofFlag enable)).target := other
    rw [first.list_eq, ofTarget_append, ofTarget_append, ofTarget_cons_of_ne other,
      ofTarget_cons_of_ne other']

private theorem confined_setEnabledExclusive (h : PriorityList.setEnabledExclusive name enable os = some os') :
    ∃ o, (setEnabledExclusive name enable).Confined os os' o := by
  obtain ⟨o, switched, found, done, rfl⟩ := setEnabledExclusive_eq_some_iff.mp h
  obtain ⟨x, confined⟩ := confined_setEnabled done
  obtain rfl : x = o := Option.some.inj (confined.found.symm.trans found)
  refine ⟨x, found, ?_, ?_⟩
  · refine setEnabledExclusive_eq_some_iff.mpr ⟨x, _, find?_ofTarget found, confined.inside, ?_⟩
    split
    · exact ofTarget_disableOthers _ _ _ _
    · rfl
  · intro target other
    split
    · rw [ofTarget_disableOthers, disableOthers_eq_self, confined.outside target other]
      intro y hy
      rw [(mem_ofTarget_iff.mp hy).2]
      exact decide_eq_false other
    · exact confined.outside target other

private theorem confined_setEnabledExclusiveInCategory
    (h : PriorityList.setEnabledExclusiveInCategory name os = some os') :
    ∃ o, (setEnabledExclusiveInCategory name).Confined os os' o := by
  obtain ⟨o, category, switched, found, categorized, done, rfl⟩ :=
    setEnabledExclusiveInCategory_eq_some_iff.mp h
  obtain ⟨x, confined⟩ := confined_setEnabled done
  obtain rfl : x = o := Option.some.inj (confined.found.symm.trans found)
  refine ⟨x, found, ?_, ?_⟩
  · refine setEnabledExclusiveInCategory_eq_some_iff.mpr
      ⟨x, category, _, find?_ofTarget found, categorized, confined.inside, ?_⟩
    exact ofTarget_disableOthers _ _ _ _
  · intro target other
    rw [ofTarget_disableOthers, disableOthers_eq_self, confined.outside target other]
    intro y hy
    rw [(mem_ofTarget_iff.mp hy).2]
    exact decide_eq_false fun both => other both.1

private theorem ofTarget_of_move (pre' post' : List Overlay) (rest : pre ++ post = pre' ++ post')
    {target : String} (other : target ≠ o.target) :
    ofTarget target (pre' ++ o :: post') = ofTarget target (pre ++ o :: post) := by
  rw [ofTarget_append, ofTarget_append, ofTarget_cons_of_ne other, ofTarget_cons_of_ne other,
    ← ofTarget_append, ← ofTarget_append, rest]

private theorem confined_setPriority (h : PriorityList.setPriority name parent os = some os') :
    ∃ o, (setPriority name parent).Confined os os' o := by
  obtain ⟨distinct, pre, o, post, pre', q, post', first, changeable, second, same, rfl⟩ :=
    setPriority_eq_some_iff.mp h
  refine ⟨o, first.find?_eq, ?_, ?_⟩
  · have among := second.ofTarget
    rw [← same, ofTarget_append] at among
    rw [ofTarget_append, ofTarget_cons_of_eq same.symm, ofTarget_cons_of_eq rfl]
    exact setPriority_eq_some_iff.mpr
      ⟨distinct, _, o, _, _, q, _, first.ofTarget, changeable, among, same, rfl⟩
  · intro target other
    have moved : pre ++ post = pre' ++ [q] ++ post' := by rw [second.list_eq, List.append_cons]
    rw [first.list_eq, List.append_cons pre' q]
    exact ofTarget_of_move (pre' ++ [q]) post' moved other

private theorem confined_setHighestPriority (h : PriorityList.setHighestPriority name os = some os') :
    ∃ o, (setHighestPriority name).Confined os os' o := by
  obtain ⟨pre, o, post, first, changeable, rfl⟩ := setHighestPriority_eq_some_iff.mp h
  refine ⟨o, first.find?_eq, ?_, ?_⟩
  · rw [ofTarget_append, ofTarget_append, ofTarget_cons_of_eq rfl]
    exact setHighestPriority_eq_some_iff.mpr ⟨_, o, _, first.ofTarget, changeable, rfl⟩
  · intro target other
    rw [first.list_eq]
    exact ofTarget_of_move (pre ++ post) [] (by simp) other

private theorem confined_setLowestPriority (h : PriorityList.setLowestPriority name os = some os') :
    ∃ o, (setLowestPriority name).Confined os os' o := by
  obtain ⟨pre, o, post, first, changeable, rfl⟩ := setLowestPriority_eq_some_iff.mp h
  refine ⟨o, first.find?_eq, ?_, ?_⟩
  · rw [ofTarget_cons_of_eq rfl, ofTarget_append]
    exact setLowestPriority_eq_some_iff.mpr ⟨_, o, _, first.ofTarget, changeable, rfl⟩
  · intro target other
    rw [first.list_eq]
    exact ofTarget_of_move [] (pre ++ post) (by simp) other

theorem confined_of_apply {c : Change} (h : c.apply os = some os') : ∃ o, c.Confined os os' o := by
  cases c with
  | setEnabled name enable => exact confined_setEnabled h
  | setEnabledExclusive name enable => exact confined_setEnabledExclusive h
  | setEnabledExclusiveInCategory name => exact confined_setEnabledExclusiveInCategory h
  | setPriority name parent => exact confined_setPriority h
  | setHighestPriority name => exact confined_setHighestPriority h
  | setLowestPriority name => exact confined_setLowestPriority h

theorem isSome_apply_congr (c : Change) (same : ∀ name, find? name os' = find? name os) :
    (c.apply os').isSome = (c.apply os).isSome := by
  have changeable (name : String) : changeable? name os' = changeable? name os := by
    rw [changeable?, changeable?, same]
  cases c with
  | setEnabled name enable => simp only [apply, isSome_setEnabled, changeable]
  | setEnabledExclusive name enable =>
    simp only [apply, isSome_setEnabledExclusive, isSome_setEnabled, same, changeable]
  | setEnabledExclusiveInCategory name =>
    simp only [apply, isSome_setEnabledExclusiveInCategory, isSome_setEnabled, same, changeable]
  | setPriority name parent => simp only [apply, isSome_setPriority, same, changeable]
  | setHighestPriority name =>
    simp only [apply, PriorityList.setHighestPriority, Option.isSome_map, changeable]
  | setLowestPriority name =>
    simp only [apply, PriorityList.setLowestPriority, Option.isSome_map, changeable]

end Change

end Overlays
