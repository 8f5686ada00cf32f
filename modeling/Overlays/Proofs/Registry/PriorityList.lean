import Mathlib.Data.List.Basic
import Overlays.Proofs.SortedMap
import Overlays.Registry.Basic

/-!
The overlays of one user as a list around the overlay that a name addresses, and the lists of all users as parts of a
registry. Every operation on a priority list is read off at the first overlay of a name.
-/

set_option autoImplicit false
set_option relaxedAutoImplicit false

namespace Overlays

@[simp] theorem Overlay.withState_name (o : Overlay) (s : OverlayState) : (o.withState s).name = o.name := rfl

theorem Overlay.canChange_withState {o : Overlay} {s : OverlayState} (h : o.canChange = true)
    (hs : s ≠ .enabledImmutable) : (o.withState s).canChange = true := by
  simp only [canChange, Bool.and_eq_true] at h ⊢
  exact ⟨h.1, decide_eq_true hs⟩

namespace PriorityList

/-- A list around the first overlay of a name. -/
structure FirstAt (name : String) (os pre : List Overlay) (o : Overlay) (post : List Overlay) : Prop where
  list_eq : os = pre ++ o :: post
  name_eq : o.name = name
  before_ne : ∀ x ∈ pre, x.name ≠ name

variable {name : String} {os pre post : List Overlay} {o : Overlay}

theorem find?_eq_some_iff : find? name os = some o ↔ ∃ pre post, FirstAt name os pre o post := by
  simp only [find?, List.find?_eq_some_iff_append, decide_eq_true_eq, Bool.not_eq_true',
    decide_eq_false_iff_not]
  constructor
  · intro h
    obtain ⟨name_eq, pre, post, list_eq, before_ne⟩ := h
    exact ⟨pre, post, list_eq, name_eq, before_ne⟩
  · intro h
    obtain ⟨pre, post, list_eq, name_eq, before_ne⟩ := h
    exact ⟨name_eq, pre, post, list_eq, before_ne⟩

theorem find?_map {f : Overlay → Overlay} (named : ∀ x, (f x).name = x.name) (name : String)
    (os : List Overlay) : find? name (os.map f) = (find? name os).map f := by
  rw [find?, List.find?_map, find?]
  simp only [Function.comp_def, named]

theorem names_map {f : Overlay → Overlay} (named : ∀ x, (f x).name = x.name) (os : List Overlay) :
    (os.map f).map Overlay.name = os.map Overlay.name := by
  simp only [List.map_map, Function.comp_def, named]

theorem find?_eq_none_iff : find? name os = none ↔ ∀ x ∈ os, x.name ≠ name := by
  simp [find?]

namespace FirstAt

theorem find?_eq (h : FirstAt name os pre o post) : find? name os = some o :=
  find?_eq_some_iff.mpr ⟨pre, post, h⟩

theorem replace (h : FirstAt name os pre o post) {x : Overlay} (hx : x.name = o.name) :
    FirstAt name (pre ++ x :: post) pre x post :=
  ⟨rfl, hx.trans h.name_eq, h.before_ne⟩

theorem find?_withState (h : FirstAt name os pre o post) (s : OverlayState) :
    find? name (pre ++ o.withState s :: post) = some (o.withState s) := by
  have switched : FirstAt name (pre ++ o.withState s :: post) pre (o.withState s) post := h.replace rfl
  exact switched.find?_eq

theorem updateFirst_eq (h : FirstAt name os pre o post) (f : Overlay → Overlay) :
    updateFirst name f os = pre ++ f o :: post := by
  obtain ⟨rfl, name_eq, before_ne⟩ := h
  induction pre with
  | nil => exact if_pos name_eq
  | cons x pre ih =>
    obtain ⟨here, below⟩ := List.forall_mem_cons.mp before_ne
    rw [List.cons_append, updateFirst, if_neg here, ih below]
    rfl

theorem eraseFirst_eq (h : FirstAt name os pre o post) : eraseFirst name os = pre ++ post := by
  obtain ⟨rfl, name_eq, before_ne⟩ := h
  induction pre with
  | nil => exact if_pos name_eq
  | cons x pre ih =>
    obtain ⟨here, below⟩ := List.forall_mem_cons.mp before_ne
    rw [List.cons_append, eraseFirst, if_neg here, ih below]
    rfl

theorem insertAfter_eq (h : FirstAt name os pre o post) (x : Overlay) :
    insertAfter name x os = pre ++ o :: x :: post := by
  obtain ⟨rfl, name_eq, before_ne⟩ := h
  induction pre with
  | nil => exact if_pos name_eq
  | cons y pre ih =>
    obtain ⟨here, below⟩ := List.forall_mem_cons.mp before_ne
    rw [List.cons_append, insertAfter, if_neg here, ih below]
    rfl

end FirstAt

theorem find?_eraseFirst_of_ne {other : String} (h : other ≠ name) (os : List Overlay) :
    find? other (eraseFirst name os) = find? other os := by
  induction os with
  | nil => rfl
  | cons x os ih =>
    by_cases here : x.name = name
    · have skipped : ¬ x.name = other := fun same => h (same.symm.trans here)
      rw [eraseFirst, if_pos here, find?, find?, List.find?_cons_of_neg (by simpa using skipped)]
    · rw [eraseFirst, if_neg here]
      change List.find? _ _ = List.find? _ _ at ih
      simp only [find?, List.find?_cons, ih]

theorem changeable?_eq_some_iff : changeable? name os = some o ↔
    (∃ pre post, FirstAt name os pre o post) ∧ o.canChange = true := by
  rw [changeable?, Option.filter_eq_some_iff, find?_eq_some_iff]

theorem setEnabled_eq_some_iff {enable : Bool} {os' : List Overlay} :
    setEnabled name enable os = some os' ↔ ∃ pre o post, FirstAt name os pre o post ∧
      o.canChange = true ∧ ¬(enable = true ∧ o.state = .missingTarget) ∧
      os' = pre ++ o.withState (.ofFlag enable) :: post := by
  rw [setEnabled]
  simp only [Option.bind_eq_bind, Option.bind_eq_some_iff, changeable?_eq_some_iff]
  constructor
  · intro h
    obtain ⟨o, ⟨⟨pre, post, first⟩, changeable⟩, h⟩ := h
    split at h
    · cases h
    · rename_i allowed
      cases h
      exact ⟨pre, o, post, first, changeable, allowed, first.updateFirst_eq _⟩
  · intro h
    obtain ⟨pre, o, post, first, changeable, allowed, rfl⟩ := h
    refine ⟨o, ⟨⟨pre, post, first⟩, changeable⟩, ?_⟩
    rw [if_neg allowed, first.updateFirst_eq]

theorem setEnabledExclusive_eq_some_iff {enable : Bool} {os' : List Overlay} :
    setEnabledExclusive name enable os = some os' ↔ ∃ o switched, find? name os = some o ∧
      setEnabled name enable os = some switched ∧
      os' = if enable then disableOthers name (fun x => x.target = o.target) switched else switched := by
  simp only [setEnabledExclusive, Option.bind_eq_bind, Option.bind_eq_some_iff, Option.pure_def,
    Option.some.injEq]
  constructor
  · intro h
    obtain ⟨o, found, switched, done, rest⟩ := h
    exact ⟨o, switched, found, done, rest.symm⟩
  · intro h
    obtain ⟨o, switched, found, done, rest⟩ := h
    exact ⟨o, found, switched, done, rest.symm⟩

theorem setEnabledExclusiveInCategory_eq_some_iff {os' : List Overlay} :
    setEnabledExclusiveInCategory name os = some os' ↔ ∃ o category switched, find? name os = some o ∧
      o.category = some category ∧ setEnabled name true os = some switched ∧
      os' = disableOthers name (fun x => x.target = o.target ∧ x.category = some category) switched := by
  simp only [setEnabledExclusiveInCategory, Option.bind_eq_bind, Option.bind_eq_some_iff, Option.pure_def,
    Option.some.injEq]
  constructor
  · intro h
    obtain ⟨o, found, category, categorized, switched, done, rest⟩ := h
    exact ⟨o, category, switched, found, categorized, done, rest.symm⟩
  · intro h
    obtain ⟨o, category, switched, found, categorized, done, rest⟩ := h
    exact ⟨o, found, category, categorized, switched, done, rest.symm⟩

theorem setPriority_eq_some_iff {parent : String} {os' : List Overlay} :
    setPriority name parent os = some os' ↔ name ≠ parent ∧ ∃ pre o post pre' q post',
      FirstAt name os pre o post ∧ o.canChange = true ∧ FirstAt parent (pre ++ post) pre' q post' ∧
      o.target = q.target ∧ os' = pre' ++ q :: o :: post' := by
  rw [setPriority]
  constructor
  · intro h
    split at h
    · cases h
    rename_i distinct
    simp only [Option.bind_eq_bind, Option.bind_eq_some_iff, changeable?_eq_some_iff] at h
    obtain ⟨o, ⟨⟨pre, post, first⟩, changeable⟩, q, found, h⟩ := h
    split at h
    · rename_i same
      cases h
      rw [← find?_eraseFirst_of_ne (Ne.symm distinct), first.eraseFirst_eq] at found
      obtain ⟨pre', post', second⟩ := find?_eq_some_iff.mp found
      rw [first.eraseFirst_eq, second.insertAfter_eq]
      exact ⟨distinct, pre, o, post, pre', q, post', first, changeable, second, same, rfl⟩
    · cases h
  · intro h
    obtain ⟨distinct, pre, o, post, pre', q, post', first, changeable, second, same, rfl⟩ := h
    have found : find? parent os = some q := by
      rw [← find?_eraseFirst_of_ne (Ne.symm distinct), first.eraseFirst_eq, second.find?_eq]
    rw [if_neg distinct]
    simp only [Option.bind_eq_bind, Option.bind_eq_some_iff, changeable?_eq_some_iff]
    refine ⟨o, ⟨⟨pre, post, first⟩, changeable⟩, q, found, ?_⟩
    rw [if_pos same, first.eraseFirst_eq, second.insertAfter_eq]

private theorem map_changeable?_eq_some_iff (put : Overlay → List Overlay → List Overlay)
    {os' : List Overlay} :
    (changeable? name os).map (fun o => put o (eraseFirst name os)) = some os' ↔
      ∃ pre o post, FirstAt name os pre o post ∧ o.canChange = true ∧ os' = put o (pre ++ post) := by
  simp only [Option.map_eq_some_iff, changeable?_eq_some_iff]
  constructor
  · intro h
    obtain ⟨o, ⟨⟨pre, post, first⟩, changeable⟩, rfl⟩ := h
    exact ⟨pre, o, post, first, changeable, by rw [first.eraseFirst_eq]⟩
  · intro h
    obtain ⟨pre, o, post, first, changeable, rfl⟩ := h
    exact ⟨o, ⟨⟨pre, post, first⟩, changeable⟩, by rw [first.eraseFirst_eq]⟩

theorem setHighestPriority_eq_some_iff {os' : List Overlay} :
    setHighestPriority name os = some os' ↔ ∃ pre o post, FirstAt name os pre o post ∧
      o.canChange = true ∧ os' = pre ++ post ++ [o] := by
  rw [setHighestPriority]
  exact map_changeable?_eq_some_iff fun o rest => rest ++ [o]

theorem setLowestPriority_eq_some_iff {os' : List Overlay} :
    setLowestPriority name os = some os' ↔ ∃ pre o post, FirstAt name os pre o post ∧
      o.canChange = true ∧ os' = o :: (pre ++ post) := by
  rw [setLowestPriority]
  exact map_changeable?_eq_some_iff List.cons

end PriorityList

theorem Change.apply_nil (c : Change) : c.apply [] = none := by
  cases c with
  | setPriority name parent =>
    rw [apply, PriorityList.setPriority]
    split
    · rfl
    · rfl
  | _ => rfl

theorem Change.ne_nil_of_apply {c : Change} {os os' : List Overlay} (h : c.apply os = some os') : os ≠ [] := by
  rintro rfl
  rw [c.apply_nil] at h
  cases h

namespace Registry

open PriorityList

variable {r r' : Registry} {user : UserId} {c : Change}

theorem withOverlays_withOverlays (r : Registry) (user : UserId) (os os' : List Overlay) :
    (r.withOverlays user os).withOverlays user os' = r.withOverlays user os' := by
  simp only [withOverlays, SortedMap.insert_insert]

theorem overlays_withOverlays_self (r : Registry) (user : UserId) (os : List Overlay) :
    (r.withOverlays user os).overlays user = os := by
  rw [overlays, withOverlays, SortedMap.get?_insert, if_pos rfl]
  rfl

theorem overlays_withOverlays_ne (r : Registry) {user user' : UserId} (h : user' ≠ user)
    (os : List Overlay) : (r.withOverlays user os).overlays user' = r.overlays user' := by
  rw [overlays, withOverlays, SortedMap.get?_insert, if_neg h, ← overlays]

/-- A user who has overlays is known, so that none comes in when they are replaced. -/
theorem users_withOverlays (known : r.overlays user ≠ []) (os : List Overlay) :
    (r.withOverlays user os).users.keys = r.users.keys := by
  apply SortedMap.keys_insert_of_mem
  by_contra unlisted
  rw [overlays, SortedMap.get?_eq_none_iff.mpr unlisted] at known
  exact known rfl

theorem FirstAt.overlays_ne_nil {name : String} {pre post : List Overlay} {o : Overlay}
    (h : FirstAt name (r.overlays user) pre o post) : r.overlays user ≠ [] := by
  rw [h.list_eq]
  simp

theorem change?_eq_some_iff :
    r.change? user c = some r' ↔ ∃ os, c.apply (r.overlays user) = some os ∧ r.withOverlays user os = r' := by
  rw [change?, Option.map_eq_some_iff]

theorem info?_map_state (r : Registry) (name : String) (user : UserId) :
    (r.info? name user).map (·.state) = (PriorityList.find? name (r.overlays user)).map (·.state) := by
  rw [info?, Option.map_map]
  rfl

end Registry

end Overlays
