import Overlays.Proofs.Manager.Visibility

set_option autoImplicit false
set_option relaxedAutoImplicit false

namespace Overlays

open PriorityList Relation

/-- An overlay of a name stays as it is if its target is missing. -/
def Overlay.KeptMissing (name : String) (o o' : Overlay) : Prop :=
  o.name = name → o.state = .missingTarget → o' = o

private theorem Overlay.keptMissing_of_turns {off : String → Prop} {name : String} (forbidden : ¬ off name)
    {o o' : Overlay} (h : ReflTransGen (Turn off) o o') : o.KeptMissing name o' := by
  intro named missing
  induction h with
  | refl => rfl
  | tail _ turned ih =>
    rw [ih] at turned
    obtain ⟨enable, changeable, only_off⟩ := turned
    exact absurd (named ▸ (only_off missing).2) forbidden

namespace PriorityList

variable {off : String → Prop} {os os' : List Overlay} {name : String} {o : Overlay}

/-- The only overlay of a name. -/
def Sole (name : String) (o : Overlay) (os : List Overlay) : Prop := os.filter (·.name = name) = [o]

private theorem Sole.find?_eq (h : Sole name o os) : find? name os = some o := by
  rw [find?, ← List.head?_filter, h]
  rfl

private theorem Sole.eq_of_mem (h : Sole name o os) {x : Overlay} (member : x ∈ os) (named : x.name = name) :
    x = o := by
  have chosen : x ∈ os.filter (·.name = name) := List.mem_filter.mpr ⟨member, decide_eq_true named⟩
  rw [h] at chosen
  exact List.mem_singleton.mp chosen

private theorem Sole.edits (h : Sole name o os) (edits : ReflTransGen (Edit off) os os') :
    ∃ o', Sole name o' os' ∧ ReflTransGen (Overlay.Turn off) o o' := by
  have count (xs : List Overlay) : (xs.filter (·.name = name)).length = (xs.map Overlay.name).count name := by
    rw [← List.countP_eq_length_filter, List.count, List.countP_map]
    rfl
  have same := (edits_map_perm Overlay.withState_name edits).count_eq name
  have alone : (os'.filter (·.name = name)).length = 1 := by rw [count, same, ← count, h]; rfl
  obtain ⟨o', sole⟩ := List.length_eq_one_iff.mp alone
  have listed : o' ∈ os'.filter (·.name = name) := by rw [sole]; exact List.mem_singleton_self o'
  obtain ⟨member, named⟩ := List.mem_filter.mp listed
  -- the overlay that it was before bears the name as well, so it is the only one there
  obtain ⟨x, before, turns⟩ := Multiset.exists_mem_of_rel_of_mem (Multiset.rel_flip.mpr (edits_matched edits)) member
  have named' : x.name = name := by
    have fixed := (Overlay.fate_of_turns turns).fixed_eq
    exact (congrArg Prod.fst fixed).symm.trans (of_decide_eq_true named)
  have origin : x = o := h.eq_of_mem before named'
  exact ⟨o', sole, origin ▸ turns⟩

private theorem Sole.present_of_edits (h : Sole name o os) (present : o.state ≠ .missingTarget)
    (edits : ReflTransGen (Edit off) os os') : ∃ o', Sole name o' os' ∧ o'.state ≠ .missingTarget := by
  obtain ⟨o', sole, turns⟩ := h.edits edits
  refine ⟨o', sole, fun missing => ?_⟩
  have same : o' = o := (Overlay.fate_of_turns turns).kept_of_given (.inr missing)
  exact present (same ▸ missing)

private theorem Sole.present_of_shown (h : Sole name o os)
    (shown : (find? name os).map (·.state) = some .disabled) : o.state ≠ .missingTarget := by
  rw [h.find?_eq, Option.map_some, Option.some.injEq] at shown
  simp [shown]

end PriorityList

namespace Registry

variable {r r' : Registry} {user : UserId} {name : String} {o : Overlay}

private theorem present_of_change {c : Change} (sole : Sole name o (r.overlays user))
    (disabling : c.disables name = true) (h : r.change? user c = some r') :
    ∃ o', Sole name o' (r'.overlays user) ∧ o'.state ≠ .missingTarget := by
  obtain ⟨o', sole', -⟩ := sole.edits ((edited_of_change? h).edits user)
  have shown := shown_of_change? (of_decide_eq_true disabling) h
  rw [info?_map_state] at shown
  exact ⟨o', sole', sole'.present_of_shown shown⟩

private theorem present_of_apply {q : Request} (sole : Sole name o (r.overlays user))
    (disabling : q.disables user name = true) (h : r.apply q = .ok r') :
    ∃ o', Sole name o' (r'.overlays user) ∧ o'.state ≠ .missingTarget := by
  obtain ⟨o', sole', -⟩ := sole.edits ((edited_of_apply h).edits user)
  simp only [Request.disables, Bool.and_eq_true, decide_eq_true_eq] at disabling
  obtain ⟨addressed, known⟩ := disabling
  have shown : (find? name (r'.overlays user)).map (·.state) = some .disabled := by
    rw [← head?_statesOf, statesOf_apply h user name, if_pos addressed, if_neg (by simp [known])]
    rfl
  exact ⟨o', sole', sole'.present_of_shown shown⟩

private theorem present_of_commit {t : Transaction} (sole : Sole name o (r.overlays user))
    (disabling : t.requests.any (·.disables user name) = true) (h : r.commit t = .ok r') :
    ∃ o', Sole name o' (r'.overlays user) ∧ o'.state ≠ .missingTarget := by
  obtain ⟨requests⟩ := t
  obtain ⟨q, member, off⟩ := List.any_eq_true.mp disabling
  obtain ⟨qs, qs', rfl⟩ := List.append_of_mem member
  -- the registries in front of the request that disables, and behind it
  obtain ⟨r₁, before, rest⟩ := commit_append_ok_iff.mp h
  obtain ⟨r₂, applied, behind⟩ := commit_cons_ok_iff.mp rest
  obtain ⟨o₁, sole₁, -⟩ := sole.edits ((edited_of_commit before).edits user)
  obtain ⟨o₂, sole₂, present⟩ := present_of_apply sole₁ off applied
  exact sole₂.present_of_edits present ((edited_of_commit behind).edits user)

private theorem present_of_effect? {c : Call} (sole : Sole name o (r.overlays user))
    (disabling : c.disables user name = true) (h : c.effect? r = some r') :
    ∃ o', Sole name o' (r'.overlays user) ∧ o'.state ≠ .missingTarget := by
  cases c with
  | change c u =>
    simp only [Call.disables, Bool.and_eq_true, decide_eq_true_eq] at disabling
    obtain ⟨rfl, disabling⟩ := disabling
    exact present_of_change sole disabling h
  | commit t => exact present_of_commit sole disabling (Call.effect?_commit_eq_some_iff.mp h).2
  | all user => cases disabling
  | target name user => cases disabling
  | info package user => cases disabling
  | lookup loaded resource user => cases disabling

private theorem present_after_of_disabledIn {cs : List Call} (sole : Sole name o (r.overlays user))
    (disabled : r.disabledIn user name cs = true) :
    ∃ o', Sole name o' ((r.after cs).overlays user) ∧ o'.state ≠ .missingTarget := by
  induction cs generalizing r o with
  | nil => cases disabled
  | cons c cs ih =>
    simp only [disabledIn, Bool.or_eq_true, Bool.and_eq_true] at disabled
    change ∃ o', Sole name o' (((c.next r).after cs).overlays user) ∧ o'.state ≠ .missingTarget
    rcases disabled with ⟨disabling, carried_out⟩ | later
    · obtain ⟨r', effect⟩ := Option.isSome_iff_exists.mp carried_out
      obtain ⟨o', sole', present⟩ := present_of_effect? sole disabling effect
      rw [← Call.next_of_some effect] at sole'
      exact sole'.present_of_edits present ((edited_after (c.next r) cs).edits user)
    · obtain ⟨o', sole', -⟩ := sole.edits ((edited_next r c).edits user)
      exact ih sole' later

private theorem shown_enabled_iff (sole : Sole name o (r.overlays user)) (changeable : o.canChange = true) :
    ((r.after [.change (.setEnabled name true) user]).info? name user).map (·.state) = some .enabled ↔
      o.state ≠ .missingTarget := by
  change (((Call.change (.setEnabled name true) user).next r).info? name user).map (·.state) = _ ↔ _
  by_cases missing : o.state = .missingTarget
  · have refused : (Call.change (.setEnabled name true) user).effect? r = none := by
      rw [Call.effect?, change?, Change.apply, setEnabled, changeable?, sole.find?_eq]
      simp [changeable, missing]
    rw [Call.next_of_none refused, info?_map_state, sole.find?_eq]
    simp [missing]
  · obtain ⟨pre, post, first⟩ := find?_eq_some_iff.mp sole.find?_eq
    have asks : Change.asks? name (.setEnabled name true) = some true := if_pos rfl
    have made : (Call.change (.setEnabled name true) user).effect? r =
        some (r.withOverlays user (pre ++ o.withState .enabled :: post)) :=
      change?_eq_some_iff.mpr ⟨_, setEnabled_eq_some_iff.mpr
        ⟨pre, o, post, first, changeable, fun both => missing both.2, rfl⟩, rfl⟩
    rw [Call.next_of_some made]
    exact iff_of_true (shown_of_change? asks made) missing

/-- Overlays whose target is missing stay as they are, and out of effect, in every run that does not switch them off.
After a run that has switched such an overlay off it can be switched on, although its target is missing as before. -/
theorem missing_until_disabled (r : Registry) (user : UserId) (name : String) (cs : List Call) :
    (r.disabledIn user name cs = false →
      Multiset.Rel (Overlay.KeptMissing name) (r.overlays user : Multiset Overlay)
        ((r.after cs).overlays user)) ∧
    ∀ o, Sole name o (r.overlays user) → o.canChange = true → o.state = .missingTarget →
      (((r.after (cs ++ [.change (.setEnabled name true) user])).info? name user).map (·.state) =
        some .enabled ↔ r.disabledIn user name cs = true) := by
  have edits := (edited_after r cs).edits user
  refine ⟨?_, ?_⟩
  · intro never
    have forbidden : ¬ r.disabledIn user name cs = true := by simp [never]
    exact (edits_matched edits).mono fun o _ o' _ turns => Overlay.keptMissing_of_turns forbidden turns
  · intro o sole changeable missing
    obtain ⟨o', sole', turns⟩ := sole.edits edits
    have changeable' : o'.canChange = true := by
      have same := (Overlay.fate_of_turns turns).frozen_iff
      simpa [Overlay.isFrozen_iff, changeable] using same
    rw [after_append, shown_enabled_iff sole' changeable']
    constructor
    · intro present
      by_contra forbidden
      obtain ⟨pre, post, first⟩ := find?_eq_some_iff.mp sole.find?_eq
      have named : o.name = name := first.name_eq
      have same : o' = o := Overlay.keptMissing_of_turns forbidden turns named missing
      exact present (same ▸ missing)
    · intro disabled
      obtain ⟨x, found, present⟩ := present_after_of_disabledIn sole disabled
      obtain rfl : o' = x := Option.some.inj (sole'.find?_eq.symm.trans found.find?_eq)
      exact present

/-- One overlay whose target is missing, and one whose target is there. -/
private def orphaned : Registry where
  targets := ∅
  users := ⟨[(⟨0⟩, [⟨"orphan", "gone", none, .missingTarget, true, ∅⟩, ⟨"dark", "app", none, .enabled, true, ∅⟩])],
    by simp⟩

private def orphanOff : Call := .change (.setEnabled "orphan" false) ⟨0⟩

private def orphanOn : Call := .change (.setEnabled "orphan" true) ⟨0⟩

theorem missing_until_disabled_of_orphan :
    orphaned.disabledIn ⟨0⟩ "orphan" [orphanOn, .change (.setHighestPriority "orphan") ⟨0⟩] = false ∧
      Multiset.Rel (Overlay.KeptMissing "orphan") (orphaned.overlays ⟨0⟩ : Multiset Overlay)
        ((orphaned.after [orphanOn, .change (.setHighestPriority "orphan") ⟨0⟩]).overlays ⟨0⟩) ∧
      orphaned.disabledIn ⟨0⟩ "orphan" [orphanOff] = true ∧
      ((orphaned.after [orphanOff, orphanOn]).info? "orphan" ⟨0⟩).map (·.state) = some .enabled := by
  have never : orphaned.disabledIn ⟨0⟩ "orphan" [orphanOn, .change (.setHighestPriority "orphan") ⟨0⟩] = false := by
    decide
  have disabled : orphaned.disabledIn ⟨0⟩ "orphan" [orphanOff] = true := by decide
  obtain ⟨kept, -⟩ :=
    missing_until_disabled orphaned ⟨0⟩ "orphan" [orphanOn, .change (.setHighestPriority "orphan") ⟨0⟩]
  obtain ⟨-, exactly⟩ := missing_until_disabled orphaned ⟨0⟩ "orphan" [orphanOff]
  exact ⟨never, kept never, disabled, (exactly _ rfl rfl rfl).mpr disabled⟩

/-- Nothing has brought the target back, and yet the overlay is in effect after two calls. -/
theorem in_effect_without_target :
    Registry.ofText? ("users:\n  0:\n  - name: orphan\n    target: gone\n    state: missing_target\n"
        ++ "  - name: dark\n    target: app\n    state: enabled\n") = some orphaned ∧
      (orphaned.info? "orphan" ⟨0⟩).map (·.state) = some .missingTarget ∧
      ((orphaned.after [orphanOff, orphanOn]).info? "orphan" ⟨0⟩).map (·.state) = some .enabled := by
  decide +kernel

end Registry

end Overlays
