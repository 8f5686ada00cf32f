import Mathlib.Data.List.Basic
import Overlays.SortedMap

set_option autoImplicit false
set_option relaxedAutoImplicit false

namespace Overlays.SortedMap

universe u v

variable {κ : Type u} {α : Type v} [Ord κ]

section Lookup

variable [Std.LawfulEqOrd κ] [DecidableEq κ]

private theorem find?_insertEntry (k k' : κ) (x : α) (es : List (κ × α)) :
    ((insertEntry k x es).find? fun e => e.1 = k').map Prod.snd =
      if k' = k then some x else (es.find? fun e => e.1 = k').map Prod.snd := by
  induction es with
  | nil =>
    by_cases here : k' = k
    · simp [insertEntry, here]
    · simp [insertEntry, here, Ne.symm here]
  | cons e es ih =>
    rw [insertEntry]
    split
    · by_cases here : k' = k
      · simp [here]
      · simp [here, List.find?_cons, Ne.symm here]
    · rename_i same
      have same : k = e.1 := Std.LawfulEqOrd.eq_of_compare same
      by_cases here : k' = k
      · simp [here]
      · simp [here, ← same, Ne.symm here]
    · rename_i behind
      have other : e.1 ≠ k := by
        intro same
        rw [same, Std.compare_self] at behind
        cases behind
      by_cases here : e.1 = k'
      · have differs : k' ≠ k := here ▸ other
        simp [here, differs]
      · rw [List.find?_cons_of_neg (by simpa using here), List.find?_cons_of_neg (by simpa using here)]
        exact ih

theorem get?_insert [Std.TransOrd κ] (m : SortedMap κ α) (k k' : κ) (x : α) :
    (m.insert k x).get? k' = if k' = k then some x else m.get? k' :=
  find?_insertEntry k k' x m.entries

theorem get?_eq_some_iff {m : SortedMap κ α} {k : κ} {x : α} : m.get? k = some x ↔ (k, x) ∈ m.entries := by
  obtain ⟨es, sorted⟩ := m
  simp only [get?, Option.map_eq_some_iff]
  constructor
  · intro h
    obtain ⟨e, found, rfl⟩ := h
    have key : e.1 = k := by simpa using List.find?_some found
    exact key ▸ List.mem_of_find?_eq_some found
  · intro listed
    induction es with
    | nil => cases listed
    | cons e es ih =>
      obtain ⟨before, sorted⟩ := List.pairwise_cons.mp sorted
      rcases List.mem_cons.mp listed with rfl | below
      · exact ⟨(k, x), by simp, rfl⟩
      · have other : ¬ e.1 = k := by
          intro same
          have less := before (k, x) below
          rw [same, Std.compare_self] at less
          cases less
        rw [List.find?_cons_of_neg (by simpa using other)]
        exact ih sorted below

theorem get?_eq_none_iff {m : SortedMap κ α} {k : κ} : m.get? k = none ↔ k ∉ m.keys := by
  rw [Option.eq_none_iff_forall_ne_some, keys, List.mem_map, not_exists]
  constructor
  · rintro unbound ⟨_, x⟩ ⟨listed, rfl⟩
    exact unbound x (get?_eq_some_iff.mpr listed)
  · intro unlisted x bound
    exact unlisted (k, x) ⟨get?_eq_some_iff.mp bound, rfl⟩

theorem ext_get? [Std.TransOrd κ] {m m' : SortedMap κ α} (same : ∀ k, m.get? k = m'.get? k) : m = m' := by
  have distinct (m : SortedMap κ α) : m.entries.Nodup := by
    refine m.sorted.imp fun {a b} less equal => ?_
    rw [equal, Std.compare_self] at less
    cases less
  have listed (e : κ × α) : e ∈ m.entries ↔ e ∈ m'.entries := by
    rw [← get?_eq_some_iff, ← get?_eq_some_iff, same]
  have perm := (List.perm_ext_iff_of_nodup (distinct m) (distinct m')).mpr listed
  apply SortedMap.ext
  refine perm.eq_of_pairwise ?_ m.sorted m'.sorted
  intro a b _ _ less greater
  have less_itself : compare a.1 a.1 = .lt := Std.TransCmp.lt_trans less greater
  rw [Std.compare_self] at less_itself
  cases less_itself

theorem insert_insert [Std.TransOrd κ] (m : SortedMap κ α) (k : κ) (x y : α) :
    (m.insert k x).insert k y = m.insert k y := by
  apply ext_get?
  intro k'
  rw [get?_insert, get?_insert, get?_insert]
  by_cases here : k' = k
  · rw [if_pos here, if_pos here]
  · rw [if_neg here, if_neg here, if_neg here]

end Lookup

section Entries

variable [Std.TransOrd κ]

private theorem keys_insertEntry_of_mem {k : κ} (x : α) {es : List (κ × α)}
    (sorted : es.Pairwise fun a b => compare a.1 b.1 = .lt) (bound : k ∈ es.map Prod.fst) :
    (insertEntry k x es).map Prod.fst = es.map Prod.fst := by
  induction es with
  | nil => cases bound
  | cons e es ih =>
    obtain ⟨before, sorted⟩ := List.pairwise_cons.mp sorted
    rw [insertEntry]
    rcases List.mem_cons.mp bound with rfl | below
    · rw [Std.compare_self]
      rfl
    · obtain ⟨d, listed, rfl⟩ := List.mem_map.mp below
      have behind : compare d.1 e.1 = .gt := Std.OrientedCmp.gt_of_lt (before d listed)
      rw [behind]
      exact congrArg (e.1 :: ·) (ih sorted below)

theorem keys_insert_of_mem {m : SortedMap κ α} {k : κ} (bound : k ∈ m.keys) (x : α) :
    (m.insert k x).keys = m.keys :=
  keys_insertEntry_of_mem x m.sorted bound

private theorem insertEntry_of_last {k : κ} {x : α} {es : List (κ × α)}
    (last : ∀ e ∈ es, compare e.1 k = .lt) : insertEntry k x es = es ++ [(k, x)] := by
  induction es with
  | nil => rfl
  | cons e es ih =>
    obtain ⟨here, below⟩ := List.forall_mem_cons.mp last
    have behind : compare k e.1 = .gt := Std.OrientedCmp.gt_of_lt here
    rw [insertEntry, behind]
    exact congrArg (e :: ·) (ih below)

private theorem entries_foldl_insert (es : List (κ × α)) (m : SortedMap κ α)
    (sorted : (m.entries ++ es).Pairwise fun a b => compare a.1 b.1 = .lt) :
    (es.foldl (fun m e => m.insert e.1 e.2) m).entries = m.entries ++ es := by
  induction es generalizing m with
  | nil => simp
  | cons e es ih =>
    have last : ∀ d ∈ m.entries, compare d.1 e.1 = .lt := by
      intro d hd
      exact (List.pairwise_append.mp sorted).2.2 d hd e List.mem_cons_self
    have inserted : (m.insert e.1 e.2).entries = m.entries ++ [e] := insertEntry_of_last last
    rw [List.append_cons, ← inserted] at sorted
    rw [List.foldl_cons, ih _ sorted, inserted, List.append_assoc, List.singleton_append]

theorem ofList_entries (m : SortedMap κ α) : ofList m.entries = m :=
  SortedMap.ext (entries_foldl_insert m.entries ∅ m.sorted)

end Entries

end Overlays.SortedMap
