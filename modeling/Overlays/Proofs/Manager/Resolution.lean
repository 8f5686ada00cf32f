import Overlays.Proofs.Manager.Runs
import Overlays.Proofs.Registry.Similarity

set_option autoImplicit false
set_option relaxedAutoImplicit false

namespace Overlays

open PriorityList

namespace PriorityList

variable {name target : String} {os pre post : List Overlay} {o x : Overlay}

/-- The overlay of a target that stands above the others of the target. -/
def top? (target : String) (os : List Overlay) : Option Overlay := (ofTarget target os).getLast?

private theorem top?_concat (os : List Overlay) (o : Overlay) : top? o.target (os ++ [o]) = some o := by
  rw [top?, ofTarget_append, ofTarget_cons_of_eq rfl]
  exact List.getLast?_concat

private theorem top?_rearranged_of_enabling (other : target ≠ o.target) :
    top? target (RequestType.setEnabled.rearranged pre o post) = top? target (pre ++ o :: post) := by
  have other' : target ≠ (o.withState .enabled).target := other
  have nothing : ofTarget target [o.withState .enabled] = [] := ofTarget_cons_of_ne other' []
  rw [top?, top?, RequestType.rearranged, ofTarget_append, nothing, List.append_nil, ofTarget_append,
    ofTarget_append, ofTarget_cons_of_ne other]

private theorem top?_rearranged_of_disabling (top : top? target (pre ++ o :: post) = some x) (other : o.name ≠ x.name) :
    top? target (RequestType.setDisabled.rearranged pre o post) = some x := by
  rw [top?, ofTarget_append] at top
  rw [top?, RequestType.rearranged, ofTarget_append]
  by_cases here : o.target = target
  · have here' : (o.withState .disabled).target = target := here
    rw [ofTarget_cons_of_eq here] at top
    rw [ofTarget_cons_of_eq here']
    -- the top one stands behind the disabled one, which it is not
    cases behind : ofTarget target post with
    | nil =>
      rw [behind, List.getLast?_concat] at top
      exact absurd (congrArg Overlay.name (Option.some.inj top)) other
    | cons y ys =>
      rw [behind] at top
      simpa [List.getLast?_append] using top
  · have here' : ¬ (o.withState .disabled).target = target := here
    rw [ofTarget_cons_of_ne (Ne.symm here)] at top
    rw [ofTarget_cons_of_ne (Ne.symm here')]
    exact top

end PriorityList

namespace Registry

variable {r r' : Registry} {user : UserId} {name : String} {o x : Overlay}

private theorem named_before_commit {t : Transaction} (distinct : ((r.overlays user).map Overlay.name).Nodup)
    (committed : r.commit t = .ok r') (found : find? name (r'.overlays user) = some x) :
    ∃ o, find? name (r.overlays user) = some o ∧ x.fixed = o.fixed := by
  obtain ⟨member, named⟩ := name_of_find? found
  have perm := commit_map_perm Overlay.fixed_withState committed user
  have listed : x.fixed ∈ (r.overlays user).map Overlay.fixed :=
    perm.mem_iff.mp (List.mem_map.mpr ⟨x, member, rfl⟩)
  obtain ⟨o, before, same⟩ := List.mem_map.mp listed
  have named' : o.name = name := (congrArg Prod.fst same).trans named
  refine ⟨o, ?_, same.symm⟩
  rw [← named']
  exact find?_eq_some_of_mem distinct before

/-- What a request asks is nothing that puts an overlay above the top one of a target, or that disables it. -/
structure Spares (os : List Overlay) (user : UserId) (o : Overlay) (q : Request) : Prop where
  no_rival : q.user = user → q.kind.known? = some .setEnabled →
    ∀ rival, find? q.package os = some rival → rival.target ≠ o.target
  not_disabled : ¬ q.disables user o.name

private theorem top?_of_apply {q : Request} (spares : Spares (r.overlays user) user o q)
    (top : top? o.target (r.overlays user) = some x) (same : x.name = o.name) (h : r.apply q = .ok r') :
    top? o.target (r'.overlays user) = some x := by
  obtain ⟨type, pre, y, post, known, first, -, -, rfl⟩ := apply_ok_iff.mp h
  by_cases here : q.user = user
  · subst here
    rw [overlays_withOverlays_self]
    rw [first.list_eq] at top
    cases type with
    | setEnabled =>
      have other := spares.no_rival rfl known y first.find?_eq
      rw [top?_rearranged_of_enabling (Ne.symm other), top]
    | setDisabled =>
      refine top?_rearranged_of_disabling top ?_
      intro disabled
      refine spares.not_disabled ?_
      simp [Request.disables, known, ← first.name_eq, disabled, same]
  · rw [overlays_withOverlays_ne r (Ne.symm here)]
    exact top

private theorem Spares.of_commit {t : Transaction} {q : Request} (spares : Spares (r.overlays user) user o q)
    (distinct : ((r.overlays user).map Overlay.name).Nodup) (committed : r.commit t = .ok r') :
    Spares (r'.overlays user) user o q := by
  refine ⟨?_, spares.not_disabled⟩
  intro here known rival found
  obtain ⟨rival₀, found₀, same⟩ := named_before_commit distinct committed found
  have target : rival.target = rival₀.target := congrArg (fun all => all.2.1) same
  rw [target]
  exact spares.no_rival here known rival₀ found₀

private theorem top?_of_commit {qs : List Request} (distinct : ((r.overlays user).map Overlay.name).Nodup)
    (spares : ∀ q ∈ qs, Spares (r.overlays user) user o q)
    (top : top? o.target (r.overlays user) = some x) (same : x.name = o.name)
    (h : r.commit ⟨qs⟩ = .ok r') : top? o.target (r'.overlays user) = some x := by
  induction qs generalizing r with
  | nil =>
    cases h
    exact top
  | cons q qs ih =>
    obtain ⟨here, below⟩ := List.forall_mem_cons.mp spares
    obtain ⟨r₁, applied, rest⟩ := commit_cons_ok_iff.mp h
    have alone : r.commit ⟨[q]⟩ = .ok r₁ := commit_cons_ok_iff.mpr ⟨r₁, applied, rfl⟩
    have names := commit_map_perm Overlay.withState_name alone user
    refine ih (names.nodup_iff.mpr distinct) ?_ (top?_of_apply here top same applied) rest
    intro q' listed
    exact (below q' listed).of_commit distinct alone

private theorem top?_of_enabling {qs : List Request} {q : Request}
    (distinct : ((r.overlays user).map Overlay.name).Nodup)
    (named : find? q.package (r.overlays user) = some o) (own : q.user = user)
    (enabling : q.kind.known? = some .setEnabled) (h : r.commit ⟨qs ++ [q]⟩ = .ok r') :
    ∃ x, top? o.target (r'.overlays user) = some x ∧ x.fixed = o.fixed ∧ x.state = .enabled := by
  subst own
  obtain ⟨r₁, before, applied⟩ := commit_concat_ok_iff.mp h
  obtain ⟨type, pre, y, post, known, first, -, -, rfl⟩ := apply_ok_iff.mp applied
  cases Option.some.inj (enabling.symm.trans known)
  obtain ⟨o₀, named₀, same⟩ := named_before_commit distinct before first.find?_eq
  obtain rfl : o₀ = o := Option.some.inj (named₀.symm.trans named)
  have target : o₀.target = (y.withState .enabled).target := congrArg (fun all => all.2.1) same.symm
  refine ⟨y.withState .enabled, ?_, same, rfl⟩
  rw [overlays_withOverlays_self, RequestType.rearranged, target]
  exact top?_concat (pre ++ post) (y.withState .enabled)

private theorem lookup_of_top? {loaded value : String} {resource : ResourceName}
    (present : r.targets.contains loaded = true) (top : top? resource.package (r.overlays user) = some o)
    (enabled : o.state.isEnabled = true) (defined : o.resources.get? resource.entry = some value) :
    ∃ trace, r.lookup loaded resource user = .ok ⟨value, trace⟩ ∧
      trace.getLast? = some ("\t" ++ (o.name ++ " (overlay)")) := by
  obtain ⟨below, above⟩ := List.getLast?_eq_some_iff.mp top
  have found : (r.definitions resource user).getLast? = some (o.name ++ " (overlay)", value) := by
    rw [definitions_eq, above, List.filterMap_append]
    simp [enabled, defined]
  refine ⟨("Resolution for " ++ resource.text) :: (r.definitions resource user).map fun d => "\t" ++ d.1, ?_, ?_⟩
  · rw [lookup, if_neg (by simp [present])]
    simp only [found]
  · rw [List.getLast?_cons, List.getLast?_map, found]
    rfl

/-- The overlay that a transaction enables last among those of a target, and does not disable after that, has the last
word on all that it defines. -/
theorem lookup_of_last_enabling {before later : List Request} {q : Request} {loaded value : String}
    {resource : ResourceName} (distinct : ∀ u, ((r.overlays u).map Overlay.name).Nodup)
    (committed : r.commit ⟨before ++ q :: later⟩ = .ok r') (own : q.user = user)
    (enabling : q.kind.known? = some .setEnabled) (named : find? q.package (r.overlays user) = some o)
    (last : ∀ q' ∈ later, q'.user = user → q'.kind.known? = some .setEnabled →
      ∀ rival, find? q'.package (r.overlays user) = some rival → rival.target ≠ o.target)
    (kept : ∀ q' ∈ later, ¬ q'.disables user o.name)
    (targeted : resource.package = o.target) (defined : o.resources.get? resource.entry = some value)
    (present : r.targets.contains loaded = true) :
    ∃ trace, r'.lookup loaded resource user = .ok ⟨value, trace⟩ ∧
      trace.getLast? = some ("\t" ++ (o.name ++ " (overlay)")) := by
  rw [List.append_cons] at committed
  obtain ⟨r₁, first, rest⟩ := commit_append_ok_iff.mp committed
  obtain ⟨x, top, same, enabled⟩ := top?_of_enabling (distinct user) named own enabling first
  have names := commit_map_perm Overlay.withState_name first user
  have spares : ∀ q' ∈ later, Spares (r₁.overlays user) user o q' := by
    intro q' listed
    have spared : Spares (r.overlays user) user o q' := ⟨last q' listed, kept q' listed⟩
    exact spared.of_commit (distinct user) first
  have name : x.name = o.name := congrArg Prod.fst same
  have resources : x.resources = o.resources := congrArg (fun all => all.2.2.2.2) same
  have above := top?_of_commit (names.nodup_iff.mpr (distinct user)) spares top name rest
  have targets : r'.targets = r.targets := (edited_of_commit committed).targets_eq
  rw [← targeted] at above
  rw [← targets] at present
  rw [← resources] at defined
  rw [← name]
  exact lookup_of_top? present above (by rw [enabled]; rfl) defined

/-- An overlay that is to be enabled stands below an enabled one that cannot be changed; one of another target and another
user are there as well. -/
private def belowFirm : Registry where
  targets := ⟨[("app", ⟨⟨[("string/title", "Reader")], by simp⟩⟩), ("shell", ⟨∅⟩)], by decide⟩
  users := ⟨[(⟨0⟩, [⟨"mild", "app", none, .disabled, true, ⟨[("string/title", "Mild")], by simp⟩⟩,
    ⟨"firm", "app", none, .enabledImmutable, true, ⟨[("string/title", "Firm")], by simp⟩⟩,
    ⟨"loud", "app", none, .enabled, true, ⟨[("string/title", "Loud")], by simp⟩⟩,
    ⟨"plum", "shell", none, .disabled, true, ∅⟩]),
    (⟨10⟩, [⟨"mild", "app", none, .enabled, true, ∅⟩])], by decide⟩

private def enableLoud : Request := ⟨.ofType .setEnabled, "loud", ⟨0⟩, by decide⟩

private def enableMild : Request := ⟨.ofType .setEnabled, "mild", ⟨0⟩, by decide⟩

/-- Requests for an overlay of another target, for another overlay of the target, and for another user. -/
private def afterMild : List Request :=
  [⟨.ofType .setEnabled, "plum", ⟨0⟩, by decide⟩, ⟨.ofType .setDisabled, "loud", ⟨0⟩, by decide⟩,
    ⟨.ofType .setDisabled, "mild", ⟨10⟩, by decide⟩]

private def aboveFirm : Registry where
  targets := belowFirm.targets
  users := ⟨[(⟨0⟩, [⟨"firm", "app", none, .enabledImmutable, true, ⟨[("string/title", "Firm")], by simp⟩⟩,
    ⟨"loud", "app", none, .disabled, true, ⟨[("string/title", "Loud")], by simp⟩⟩,
    ⟨"mild", "app", none, .enabled, true, ⟨[("string/title", "Mild")], by simp⟩⟩,
    ⟨"plum", "shell", none, .enabled, true, ∅⟩]),
    (⟨10⟩, [⟨"mild", "app", none, .disabled, true, ∅⟩])], by decide⟩

theorem lookup_of_last_enabling_above_firm :
    belowFirm.commit ⟨[enableLoud] ++ enableMild :: afterMild⟩ = .ok aboveFirm ∧
      (∀ q' ∈ afterMild, ¬ q'.disables ⟨0⟩ "mild") ∧
      ∃ trace, aboveFirm.lookup "shell" ⟨"app", "string", "title"⟩ ⟨0⟩ = .ok ⟨"Mild", trace⟩ ∧
        trace.getLast? = some ("\t" ++ ("mild" ++ " (overlay)")) := by
  have committed : belowFirm.commit ⟨[enableLoud] ++ enableMild :: afterMild⟩ = .ok aboveFirm := rfl
  have kept : ∀ q' ∈ afterMild, ¬ q'.disables ⟨0⟩ "mild" := by decide
  have named : find? enableMild.package (belowFirm.overlays ⟨0⟩) =
      some ⟨"mild", "app", none, .disabled, true, ⟨[("string/title", "Mild")], by simp⟩⟩ := rfl
  have distinct (u : UserId) : ((belowFirm.overlays u).map Overlay.name).Nodup := by
    by_cases first : u = ⟨0⟩
    · subst first
      decide
    · by_cases second : u = ⟨10⟩
      · subst second
        decide
      · have nobody : belowFirm.overlays u = [] := by
          simp [belowFirm, overlays, SortedMap.get?, Ne.symm first, Ne.symm second]
        simp [nobody]
  have last : ∀ q' ∈ afterMild, q'.user = ⟨0⟩ → q'.kind.known? = some .setEnabled →
      ∀ rival, find? q'.package (belowFirm.overlays ⟨0⟩) = some rival → rival.target ≠ "app" := by
    have only : ∀ q' ∈ afterMild, q'.package = "plum" ∨ q'.kind.known? = some .setDisabled := by decide
    intro q' listed _ known rival found
    rcases only q' listed with plum | disabling
    · rw [plum] at found
      obtain rfl := Option.some.inj found
      decide
    · rw [disabling] at known
      cases known
  exact ⟨committed, kept,
    lookup_of_last_enabling distinct committed rfl rfl named last kept rfl (by decide) (by decide)⟩

end Registry

end Overlays
