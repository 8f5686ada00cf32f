import Overlays.Command.Run
import Overlays.Proofs.Manager.StateFile
import Overlays.Proofs.Text.Utf8

set_option autoImplicit false
set_option relaxedAutoImplicit false

namespace Overlays

open PriorityList Text

/-- The targets of some overlays, each of them once, in the order of their bytes. -/
structure AreTargets (targets : List String) (os : List Overlay) : Prop where
  ascending : targets.Pairwise fun a b => Utf8.BytesBefore (Utf8.bytes a) (Utf8.bytes b)
  distinct : targets.Nodup
  mem_iff : ∀ target, target ∈ targets ↔ ∃ o ∈ os, o.target = target

private theorem perm_flatMap_ofTarget {targets : List String} (distinct : targets.Nodup) (os : List Overlay) :
    (targets.flatMap fun target => ofTarget target os).Perm (os.filter (·.target ∈ targets)) := by
  induction targets with
  | nil => simp
  | cons target targets ih =>
    obtain ⟨fresh, distinct⟩ := List.nodup_cons.mp distinct
    have here : (os.filter (·.target ∈ target :: targets)).filter (·.target = target) = ofTarget target os := by
      rw [List.filter_filter, ofTarget]
      apply List.filter_congr
      intro o _
      by_cases same : o.target = target
      · simp [same]
      · simp [same]
    have elsewhere : (os.filter (·.target ∈ target :: targets)).filter (fun o => !decide (o.target = target)) =
        os.filter (·.target ∈ targets) := by
      rw [List.filter_filter]
      apply List.filter_congr
      intro o _
      by_cases same : o.target = target
      · simp [same, fresh]
      · simp [same]
    have both := List.filter_append_perm (fun o : Overlay => decide (o.target = target))
      (os.filter (·.target ∈ target :: targets))
    rw [here, elsewhere] at both
    rw [List.flatMap_cons]
    exact ((ih distinct).append_left _).trans both

private theorem AreTargets.perm {targets : List String} {os : List Overlay} (h : AreTargets targets os) :
    (targets.flatMap fun target => ofTarget target os).Perm os := by
  have all : os.filter (·.target ∈ targets) = os := by
    refine List.filter_eq_self.mpr fun o listed => ?_
    exact decide_eq_true ((h.mem_iff o.target).mpr ⟨o, listed, rfl⟩)
  have whole := perm_flatMap_ofTarget h.distinct os
  rwa [all] at whole

namespace Registry

private theorem areTargets_keys (r : Registry) (user : UserId) :
    AreTargets (r.infosByTarget user).keys (r.overlays user) := by
  have sorted : (r.infosByTarget user).keys.Pairwise fun a b => compare a b = .lt := by
    rw [SortedMap.keys, List.pairwise_map]
    exact (r.infosByTarget user).sorted
  refine ⟨sorted.imp Utf8.before_of_compare, sorted.imp ?_, fun target => ?_⟩
  · intro a b less same
    rw [same, Std.compare_self] at less
    cases less
  · have grouped : target ∈ (r.infosByTarget user).keys ↔ r.infosForTarget target user ≠ [] := by
      have held := get?_infosByTarget r user target
      rw [SortedMap.keys, List.mem_map]
      constructor
      · rintro ⟨⟨_, is⟩, listed, rfl⟩ none_
        rw [if_pos none_, SortedMap.get?_eq_some_iff.mpr listed] at held
        cases held
      · intro some_
        rw [if_neg some_] at held
        exact ⟨_, SortedMap.get?_eq_some_iff.mp held, rfl⟩
    rw [grouped, infosForTarget_eq, ne_eq, List.map_eq_nil_iff]
    constructor
    · intro some_
      obtain ⟨o, listed⟩ := List.exists_mem_of_ne_nil _ some_
      exact ⟨o, mem_ofTarget_iff.mp listed⟩
    · rintro ⟨o, listed⟩
      exact List.ne_nil_of_mem (mem_ofTarget_iff.mpr listed)

private theorem eq_infosForTarget_of_mem {r : Registry} {user : UserId} {g : String × List OverlayInfo}
    (listed : g ∈ (r.infosByTarget user).entries) :
    g.2 = r.infosForTarget g.1 user ∧ r.infosForTarget g.1 user ≠ [] := by
  have held : (r.infosByTarget user).get? g.1 = some g.2 := SortedMap.get?_eq_some_iff.mpr listed
  rw [get?_infosByTarget] at held
  split at held
  · cases held
  · rename_i some_
    exact ⟨(Option.some.inj held).symm, some_⟩

end Registry

private theorem Listing.mark_eq_iff (s : OverlayState) : mark s = "[x]" ↔ s.isEnabled = true := by
  cases s with
  | disabled => decide
  | enabled => decide
  | enabledImmutable => decide
  | missingTarget => decide

private theorem Listing.block_infosForTarget (r : Registry) (target : String) (user : UserId) :
    block target (r.infosForTarget target user) = target ++ "\n" ++
      String.join ((ofTarget target (r.overlays user)).map fun o => mark o.state ++ " " ++ o.name ++ "\n") := by
  rw [block, Registry.infosForTarget_eq, List.map_map]
  rfl

namespace Command

variable {σ : Type} [FileStore σ] {path : String} {files : σ} {r : Registry}

private theorem output_list (loaded : Manager.load path files = .ok r) (user : UserId) :
    (run path (.list none) user none files).1.output =
      String.join ((r.infosByTarget user).entries.map fun g => Listing.block g.1 g.2 ++ "\n") := by
  have text : Listing.all path user files =
      .ok (String.join ((r.infosByTarget user).entries.map fun g => Listing.block g.1 g.2 ++ "\n")) := by
    rw [Listing.all, Manager.infosByTarget, Manager.query, loaded]
    rfl
  rw [run, runList, text]
  rfl

private theorem output_list_target (loaded : Manager.load path files = .ok r) {target : String} {user : UserId}
    (some_ : r.infosForTarget target user ≠ []) :
    (run path (.list (some target)) user none files).1.output =
      Listing.block target (r.infosForTarget target user) := by
  have infos : Manager.infosForTarget path target user files = .ok (r.infosForTarget target user) := by
    rw [Manager.infosForTarget, Manager.query, loaded]
    rfl
  have text : Listing.package path target user files = .ok (Listing.block target (r.infosForTarget target user)) := by
    rw [Listing.package, infos]
    change (if (r.infosForTarget target user).isEmpty = true then _ else _) = _
    rw [if_neg (by simpa using some_)]
    rfl
  rw [run, runList, text]
  rfl

/-- All overlays of a user are listed target by target, in the order of the bytes of the targets: as each target is listed
by itself, with an empty line behind. There every overlay has its one entry, in the order of priority, and a cross in
front of its name if it is enabled. -/
theorem list_target_by_target (loaded : Manager.load path files = .ok r) (user : UserId) :
    ∃ targets, AreTargets targets (r.overlays user) ∧
      (run path (.list none) user none files).1.output =
        String.join (targets.map fun target => (run path (.list (some target)) user none files).1.output ++ "\n") ∧
      (∀ target ∈ targets, (run path (.list (some target)) user none files).1.output = target ++ "\n" ++
        String.join ((ofTarget target (r.overlays user)).map fun o => Listing.mark o.state ++ " " ++ o.name ++ "\n")) ∧
      (targets.flatMap fun target => ofTarget target (r.overlays user)).Perm (r.overlays user) ∧
      ∀ s : OverlayState, Listing.mark s = "[x]" ↔ s.isEnabled = true := by
  have areTargets := r.areTargets_keys user
  refine ⟨(r.infosByTarget user).keys, areTargets, ?_, ?_, areTargets.perm, Listing.mark_eq_iff⟩
  · rw [output_list loaded, SortedMap.keys, List.map_map]
    congr 1
    apply List.map_congr_left
    intro g listed
    obtain ⟨group, some_⟩ := Registry.eq_infosForTarget_of_mem listed
    rw [Function.comp_apply, output_list_target loaded some_, group]
  · intro target listed
    obtain ⟨g, grouped, rfl⟩ := List.mem_map.mp listed
    rw [output_list_target loaded (Registry.eq_infosForTarget_of_mem grouped).2, Listing.block_infosForTarget]

/-- Overlays of two targets in turn, one of them named like a target, and another user. -/
private def mixedTargets : Registry where
  targets := ∅
  users := .ofList [(⟨0⟩, [⟨"é", "z", none, .disabled, true, ∅⟩, ⟨"z", "é", none, .enabledImmutable, true, ∅⟩,
    ⟨"b", "z", none, .enabled, true, ∅⟩, ⟨"z", "é", none, .missingTarget, false, ∅⟩]),
    (⟨10⟩, [⟨"b", "a", none, .enabled, true, ∅⟩])]

private def mixedFile : MemoryFiles :=
  ⟨(∅ : SortedMap String String).insert "state.yaml" mixedTargets.toText, ∅, ∅, none, none⟩

theorem list_target_by_target_of_mixed :
    Manager.load "state.yaml" mixedFile = .ok mixedTargets ∧
      (∃ targets, AreTargets targets (mixedTargets.overlays ⟨0⟩) ∧
        (run "state.yaml" (.list none) ⟨0⟩ none mixedFile).1.output =
          String.join (targets.map fun target =>
            (run "state.yaml" (.list (some target)) ⟨0⟩ none mixedFile).1.output ++ "\n")) ∧
      (run "state.yaml" (.list none) ⟨0⟩ none mixedFile).1.output =
        "z\n[ ] é\n[x] b\n\né\n[x] z\n--- z\n\n" := by
  have loaded : Manager.load "state.yaml" mixedFile = .ok mixedTargets :=
    Manager.load_of_holds (MemoryFiles.holds_insert (m := ⟨∅, ∅, ∅, none, none⟩) rfl mixedTargets.toText)
  obtain ⟨targets, areTargets, whole, -⟩ := list_target_by_target loaded ⟨0⟩
  exact ⟨loaded, ⟨targets, areTargets, whole⟩, (output_list loaded ⟨0⟩).trans (by decide +kernel)⟩

end Command

end Overlays
