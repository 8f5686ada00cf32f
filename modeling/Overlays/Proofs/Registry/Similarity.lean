import Overlays.Proofs.Registry.Requests
import Overlays.Proofs.Registry.Targets
import Overlays.Proofs.SortedMap

/-!
Registries that cannot be told apart. Whatever a query shows of the overlays of a user is decided by the first overlay of
each name and by the overlays of each target. A relation between priority lists that keeps both, and that changes keep in
turn, is therefore kept by requests and transactions, which are refused on both sides for the same reason.
-/

set_option autoImplicit false
set_option relaxedAutoImplicit false

namespace Overlays

open PriorityList

namespace Registry

variable {r r' : Registry}

theorem infosForTarget_eq (r : Registry) (target : String) (user : UserId) :
    r.infosForTarget target user = (ofTarget target (r.overlays user)).map (·.info user) := by
  rw [infosForTarget, infos, List.filter_map, ofTarget]
  rfl

private theorem get?_foldl_addToGroup (is : List OverlayInfo) (groups : SortedMap String (List OverlayInfo))
    (target : String) :
    (is.foldl addToGroup groups).get? target =
      if is.filter (·.target = target) = [] then groups.get? target
      else some ((groups.get? target).getD [] ++ is.filter (·.target = target)) := by
  induction is generalizing groups with
  | nil => rfl
  | cons i is ih =>
    rw [List.foldl_cons, ih, addToGroup, SortedMap.get?_insert]
    by_cases here : target = i.target
    · subst here
      simp only [if_true, Option.getD_some, decide_true, List.filter_cons_of_pos, reduceCtorEq, if_false]
      by_cases last : is.filter (·.target = i.target) = []
      · simp [last]
      · simp [last]
    · simp [here, Ne.symm here]

theorem get?_infosByTarget (r : Registry) (user : UserId) (target : String) :
    (r.infosByTarget user).get? target =
      if r.infosForTarget target user = [] then none else some (r.infosForTarget target user) := by
  rw [infosByTarget, get?_foldl_addToGroup]
  rfl

theorem definitions_eq (r : Registry) (resource : ResourceName) (user : UserId) :
    r.definitions resource user =
      ((r.targets.get? resource.package).bind (·.resources.get? resource.entry)).toList.map
          (fun value => (resource.package ++ " (base)", value))
        ++ (ofTarget resource.package (r.overlays user)).filterMap fun o =>
          if o.state.isEnabled then
            (o.resources.get? resource.entry).map fun value => (o.name ++ " (overlay)", value)
          else none := by
  rw [definitions, ofTarget, List.filterMap_filter]
  congr 1
  apply List.filterMap_congr
  intro o _
  by_cases here : o.target = resource.package
  · simp [here]
  · simp [here]

end Registry

namespace Registry

/-- Registries with the same targets whose overlays stand in a relation, for the users in question. -/
structure Similar (R : List Overlay → List Overlay → Prop) (users : UserId → Prop) (r r' : Registry) : Prop where
  targets_eq : r'.targets = r.targets
  overlays : ∀ user, users user → R (r.overlays user) (r'.overlays user)

end Registry

/-- A relation between priority lists that keeps what queries show, and that changes keep. -/
structure PriorityList.IsSimulation (R : List Overlay → List Overlay → Prop) : Prop where
  find?_eq : ∀ {os os'}, R os os' → ∀ name, find? name os' = find? name os
  ofTarget_eq : ∀ {os os'}, R os os' → ∀ target, ofTarget target os' = ofTarget target os
  apply : ∀ {os os'}, R os os' → ∀ {c : Change} {os₁}, c.apply os = some os₁ →
    ∃ os₁', c.apply os' = some os₁' ∧ R os₁ os₁'

theorem PriorityList.isSimulation_eq : IsSimulation Eq := by
  refine ⟨?_, ?_, ?_⟩
  · rintro os _ rfl name
    rfl
  · rintro os _ rfl target
    rfl
  · rintro os _ rfl c os₁ made
    exact ⟨os₁, made, rfl⟩

namespace Registry

variable {r r' r₁ : Registry} {R : List Overlay → List Overlay → Prop} {users : UserId → Prop} {user : UserId}

theorem overlays_of_change? {c : Change} (h : r.change? user c = some r₁) :
    ∃ os, c.apply (r.overlays user) = some os ∧ r₁.overlays user = os ∧
      ∀ other, other ≠ user → r₁.overlays other = r.overlays other := by
  obtain ⟨os, made, rfl⟩ := change?_eq_some_iff.mp h
  exact ⟨os, made, overlays_withOverlays_self r user os, fun other h => overlays_withOverlays_ne r h os⟩

private theorem targets_of_change? {c : Change} (h : r.change? user c = some r₁) : r₁.targets = r.targets :=
  (edited_of_change? h).targets_eq

theorem Similar.change? (similar : r.Similar R users r') (sim : IsSimulation R) {c : Change}
    (concerned : users user) (h : r.change? user c = some r₁) :
    ∃ r₁', r'.change? user c = some r₁' ∧ r₁.Similar R users r₁' := by
  obtain ⟨os, made, here, elsewhere⟩ := overlays_of_change? h
  obtain ⟨os', made', related⟩ := sim.apply (similar.overlays user concerned) made
  have h' : r'.change? user c = some (r'.withOverlays user os') := change?_eq_some_iff.mpr ⟨os', made', rfl⟩
  obtain ⟨os'', made'', here', elsewhere'⟩ := overlays_of_change? h'
  obtain rfl : os' = os'' := Option.some.inj (made'.symm.trans made'')
  refine ⟨_, h', ?_, ?_⟩
  · rw [targets_of_change? h', targets_of_change? h, similar.targets_eq]
  · intro u concerned'
    by_cases same : u = user
    · subst same
      rw [here, here']
      exact related
    · rw [elsewhere u same, elsewhere' u same]
      exact similar.overlays u concerned'

theorem Similar.change?_none (similar : r.Similar R users r') (sim : IsSimulation R) {c : Change}
    (concerned : users user) (h : r.change? user c = none) : r'.change? user c = none := by
  have same := c.isSome_apply_congr (sim.find?_eq (similar.overlays user concerned))
  rw [Registry.change?, Option.map_eq_none_iff] at h ⊢
  rw [h] at same
  simpa using same

private theorem Similar.changeAll? (similar : r.Similar R users r') (sim : IsSimulation R)
    {calls : List (UserId × Change)} (concerned : ∀ call ∈ calls, users call.1)
    (h : r.changeAll? calls = some r₁) : ∃ r₁', r'.changeAll? calls = some r₁' ∧ r₁.Similar R users r₁' := by
  induction calls generalizing r r' with
  | nil =>
    cases h
    exact ⟨r', rfl, similar⟩
  | cons call calls ih =>
    obtain ⟨here, below⟩ := List.forall_mem_cons.mp concerned
    obtain ⟨r₂, first, rest⟩ := Option.bind_eq_some_iff.mp h
    obtain ⟨r₂', first', similar'⟩ := similar.change? sim here first
    obtain ⟨r₁', rest', similar''⟩ := ih similar' below rest
    refine ⟨r₁', ?_, similar''⟩
    rw [Registry.changeAll?, List.foldlM_cons, first']
    exact rest'

private theorem Similar.apply_ok (similar : r.Similar R users r') (sim : IsSimulation R) {q : Request}
    (concerned : users q.user) (h : r.apply q = .ok r₁) :
    ∃ r₁', r'.apply q = .ok r₁' ∧ r₁.Similar R users r₁' := by
  have known : q.kind.known? ≠ none := by
    obtain ⟨type, pre, o, post, known, -⟩ := apply_ok_iff.mp h
    simp [known]
  have all : ∀ call ∈ q.calls, users call.1 := by
    intro call listed
    obtain ⟨c, -, rfl⟩ := List.mem_map.mp listed
    exact concerned
  obtain ⟨r₁', made, similar'⟩ := similar.changeAll? sim all ((apply_ok_iff_changeAll? known).mp h)
  exact ⟨r₁', (apply_ok_iff_changeAll? known).mpr made, similar'⟩

private theorem Similar.apply_error (similar : r.Similar R users r') (sim : IsSimulation R) {q : Request}
    (concerned : users q.user) {e : Refusal} (h : r.apply q = .error e) : r'.apply q = .error e := by
  rw [apply_error_iff] at h ⊢
  rw [sim.find?_eq (similar.overlays q.user concerned), h]

theorem Similar.commit (similar : r.Similar R users r') (sim : IsSimulation R) {qs : List Request}
    (concerned : ∀ q ∈ qs, users q.user) :
    (∃ r₁ r₁', r.commit ⟨qs⟩ = .ok r₁ ∧ r'.commit ⟨qs⟩ = .ok r₁' ∧ r₁.Similar R users r₁') ∨
      ∃ e, r.commit ⟨qs⟩ = .error e ∧ r'.commit ⟨qs⟩ = .error e := by
  induction qs generalizing r r' with
  | nil => exact .inl ⟨r, r', rfl, rfl, similar⟩
  | cons q qs ih =>
    obtain ⟨here, below⟩ := List.forall_mem_cons.mp concerned
    cases applied : r.apply q with
    | error e =>
      have applied' := similar.apply_error sim here applied
      refine .inr ⟨e, commit_error_iff.mpr ⟨[], q, qs, r, rfl, rfl, applied⟩,
        commit_error_iff.mpr ⟨[], q, qs, r', rfl, rfl, applied'⟩⟩
    | ok r₂ =>
      obtain ⟨r₂', applied', similar'⟩ := similar.apply_ok sim here applied
      have unfolded : r.commit ⟨q :: qs⟩ = r₂.commit ⟨qs⟩ := by
        rw [Registry.commit, List.foldlM_cons, applied]
        rfl
      have unfolded' : r'.commit ⟨q :: qs⟩ = r₂'.commit ⟨qs⟩ := by
        rw [Registry.commit, List.foldlM_cons, applied']
        rfl
      rw [unfolded, unfolded']
      exact ih similar' below

section Queries

variable (similar : r.Similar R users r') (sim : IsSimulation R) (concerned : users user)

include similar sim concerned

theorem Similar.infosForTarget_eq (target : String) :
    r'.infosForTarget target user = r.infosForTarget target user := by
  rw [Registry.infosForTarget_eq, Registry.infosForTarget_eq,
    sim.ofTarget_eq (similar.overlays user concerned)]

theorem Similar.infosByTarget_eq : r'.infosByTarget user = r.infosByTarget user := by
  apply SortedMap.ext_get?
  intro target
  rw [get?_infosByTarget, get?_infosByTarget, similar.infosForTarget_eq sim concerned]

theorem Similar.info?_eq (name : String) : r'.info? name user = r.info? name user := by
  rw [info?, info?, sim.find?_eq (similar.overlays user concerned)]

theorem Similar.lookup_eq (loaded : String) (resource : ResourceName) :
    r'.lookup loaded resource user = r.lookup loaded resource user := by
  have definitions : r'.definitions resource user = r.definitions resource user := by
    rw [definitions_eq, definitions_eq, similar.targets_eq,
      sim.ofTarget_eq (similar.overlays user concerned)]
  rw [lookup, lookup, similar.targets_eq, definitions]

end Queries

end Registry

end Overlays
