import Overlays.Proofs.Registry.PriorityList

/-!
Moves by places. An overlay is looked for from the lowest place on, taken out at its place and put in at another one. What
stood above it has come down by one then, which a move behind another overlay has to allow for.
-/

set_option autoImplicit false
set_option relaxedAutoImplicit false

namespace Overlays.PriorityList

/-- The place of the first overlay of a name. -/
def place? (name : String) (os : List Overlay) : Option Nat := os.findIdx? (·.name = name)

/-- The place of the first overlay of a name, if that overlay may be changed. -/
def changeablePlace? (name : String) (os : List Overlay) : Option Nat :=
  (place? name os).filter fun i => os[i]?.any Overlay.canChange

def setPriorityByPlace (name parent : String) (os : List Overlay) : Option (List Overlay) := do
  if name = parent then none
  else
    let i ← changeablePlace? name os
    let j ← place? parent os
    let o ← os[i]?
    let q ← os[j]?
    if o.target = q.target then
      -- the overlay is no longer there when the other one is counted
      let below := if i < j then j - 1 else j
      some ((os.eraseIdx i).insertIdx (below + 1) o)
    else none

/-- Takes out the first overlay of a name at its place, if that overlay may be changed. -/
def removed? (name : String) (os : List Overlay) : Option (Overlay × List Overlay) := do
  let i ← changeablePlace? name os
  let o ← os[i]?
  some (o, os.eraseIdx i)

def setHighestPriorityByPlace (name : String) (os : List Overlay) : Option (List Overlay) :=
  (removed? name os).map fun p => p.2 ++ [p.1]

def setLowestPriorityByPlace (name : String) (os : List Overlay) : Option (List Overlay) :=
  (removed? name os).map fun p => p.2.insertIdx 0 p.1

variable {name parent : String} {os pre post : List Overlay} {o q : Overlay}

private theorem eraseIdx_length (pre post : List Overlay) (o : Overlay) :
    (pre ++ o :: post).eraseIdx pre.length = pre ++ post := by
  rw [List.eraseIdx_append_of_length_le (Nat.le_refl _), Nat.sub_self, List.eraseIdx_cons_zero]

private theorem insertIdx_length (pre post : List Overlay) (o : Overlay) :
    (pre ++ post).insertIdx pre.length o = pre ++ o :: post := by
  induction pre with
  | nil => rw [List.nil_append, List.length_nil, List.insertIdx_zero, List.nil_append]
  | cons x pre ih => rw [List.cons_append, List.length_cons, List.insertIdx_succ_cons, ih, List.cons_append]

private theorem place?_eq_none_of_find? (h : find? name os = none) : place? name os = none := by
  rw [place?, List.findIdx?_eq_none_iff]
  intro x member
  exact decide_eq_false (find?_eq_none_iff.mp h x member)

namespace FirstAt

private theorem place?_eq (h : FirstAt name os pre o post) : place? name os = some pre.length := by
  have before : pre.findIdx? (fun x => decide (x.name = name)) = none := by
    rw [List.findIdx?_eq_none_iff]
    intro x member
    exact decide_eq_false (h.before_ne x member)
  rw [place?, h.list_eq, List.findIdx?_append, before, List.findIdx?_cons, decide_eq_true h.name_eq, if_pos rfl,
    Option.none_or, Option.map_some, Nat.zero_add]

private theorem getElem?_eq (h : FirstAt name os pre o post) : os[pre.length]? = some o := by
  rw [h.list_eq, List.getElem?_append_right (Nat.le_refl _), Nat.sub_self, List.getElem?_cons_zero]

private theorem changeablePlace?_eq (h : FirstAt name os pre o post) :
    changeablePlace? name os = if o.canChange then some pre.length else none := by
  rw [changeablePlace?, h.place?_eq, Option.filter_some, h.getElem?_eq, Option.any_some]

private theorem eraseIdx_eq (h : FirstAt name os pre o post) : os.eraseIdx pre.length = eraseFirst name os := by
  rw [h.eraseFirst_eq, h.list_eq, eraseIdx_length]

/-- Taking an overlay out moves those above it down by one place, and no others. -/
private theorem place_without {lower upper : List Overlay} (h : FirstAt name os pre o post)
    (h' : FirstAt parent os lower q upper) (distinct : name ≠ parent) : ∃ lower' upper',
      FirstAt parent (pre ++ post) lower' q upper' ∧
      lower'.length = if pre.length < lower.length then lower.length - 1 else lower.length := by
  have differ : o ≠ q := by
    rintro rfl
    exact distinct (h.name_eq.symm.trans h'.name_eq)
  have both : pre ++ o :: post = lower ++ q :: upper := h.list_eq.symm.trans h'.list_eq
  rcases List.append_eq_append_iff.mp both with ⟨mid, lower_eq, rest⟩ | ⟨mid, pre_eq, rest⟩
  · cases mid with
    | nil =>
      cases rest
      exact absurd rfl differ
    | cons x mid =>
      -- the other overlay is above
      obtain ⟨rfl, rfl⟩ : o = x ∧ post = mid ++ q :: upper := List.cons.inj rest
      subst lower_eq
      refine ⟨pre ++ mid, upper, ⟨(List.append_assoc _ _ _).symm, h'.name_eq, ?_⟩, ?_⟩
      · intro x member
        apply h'.before_ne
        rcases List.mem_append.mp member with front | between
        · exact List.mem_append_left _ front
        · exact List.mem_append_right _ (List.mem_cons_of_mem _ between)
      · simp only [List.length_append, List.length_cons]
        rw [if_pos (by omega)]
        omega
  · cases mid with
    | nil =>
      cases rest
      exact absurd rfl differ
    | cons x mid =>
      -- the other overlay is below
      obtain ⟨rfl, rfl⟩ : q = x ∧ upper = mid ++ o :: post := List.cons.inj rest
      subst pre_eq
      refine ⟨lower, mid ++ post, ⟨List.append_assoc _ _ _, h'.name_eq, h'.before_ne⟩, ?_⟩
      simp only [List.length_append, List.length_cons]
      rw [if_neg (by omega)]

end FirstAt

private theorem changeablePlace?_eq_none (h : changeable? name os = none) : changeablePlace? name os = none := by
  cases found : find? name os with
  | none => rw [changeablePlace?, place?_eq_none_of_find? found, Option.filter_none]
  | some o =>
    obtain ⟨pre, post, first⟩ := find?_eq_some_iff.mp found
    have frozen : ¬ o.canChange = true := by
      intro changeable
      rw [changeable?, found, Option.filter_some_pos changeable] at h
      cases h
    rw [first.changeablePlace?_eq, if_neg frozen]

/-- By places an overlay is moved behind another one exactly as by names, wherever the two stand. -/
theorem setPriorityByPlace_eq (name parent : String) (os : List Overlay) :
    setPriorityByPlace name parent os = setPriority name parent os := by
  unfold setPriorityByPlace setPriority
  by_cases distinct : name = parent
  · rw [if_pos distinct, if_pos distinct]
  rw [if_neg distinct, if_neg distinct]
  simp only [Option.bind_eq_bind]
  cases own : changeable? name os with
  | none => rw [changeablePlace?_eq_none own, Option.bind_none, Option.bind_none]
  | some o =>
    obtain ⟨⟨pre, post, first⟩, changeable⟩ := changeable?_eq_some_iff.mp own
    rw [first.changeablePlace?_eq, if_pos changeable, Option.bind_some, Option.bind_some]
    cases other : find? parent os with
    | none => rw [place?_eq_none_of_find? other, Option.bind_none, Option.bind_none]
    | some q =>
      obtain ⟨lower, upper, second⟩ := find?_eq_some_iff.mp other
      rw [second.place?_eq, Option.bind_some, first.getElem?_eq, Option.bind_some, second.getElem?_eq, Option.bind_some,
        Option.bind_some]
      obtain ⟨lower', upper', second', place⟩ := first.place_without second distinct
      have inserted : (os.eraseIdx pre.length).insertIdx (lower'.length + 1) o =
          insertAfter parent o (eraseFirst name os) := by
        have behind := insertIdx_length (lower' ++ [q]) upper' o
        rw [List.length_append, List.length_singleton, ← List.append_cons, ← List.append_cons] at behind
        rw [first.eraseIdx_eq, first.eraseFirst_eq, second'.insertAfter_eq, second'.list_eq, behind]
      rw [← place, inserted]

private theorem removed?_eq (name : String) (os : List Overlay) :
    removed? name os = (changeable? name os).map fun o => (o, eraseFirst name os) := by
  unfold removed?
  rw [Option.bind_eq_bind]
  cases own : changeable? name os with
  | none => rw [changeablePlace?_eq_none own, Option.bind_none, Option.map_none]
  | some o =>
    obtain ⟨⟨pre, post, first⟩, changeable⟩ := changeable?_eq_some_iff.mp own
    rw [first.changeablePlace?_eq, if_pos changeable, Option.bind_some, first.getElem?_eq, first.eraseIdx_eq]
    rfl

theorem setHighestPriorityByPlace_eq (name : String) (os : List Overlay) :
    setHighestPriorityByPlace name os = setHighestPriority name os := by
  unfold setHighestPriorityByPlace setHighestPriority
  rw [removed?_eq, Option.map_map]
  rfl

theorem setLowestPriorityByPlace_eq (name : String) (os : List Overlay) :
    setLowestPriorityByPlace name os = setLowestPriority name os := by
  unfold setLowestPriorityByPlace setLowestPriority
  rw [removed?_eq, Option.map_map]
  rfl

end Overlays.PriorityList
