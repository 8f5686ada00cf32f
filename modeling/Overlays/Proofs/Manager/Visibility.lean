import Mathlib.Data.List.Count
import Overlays.Proofs.Manager.Runs
import Overlays.Proofs.Registry.NetEffect

/-!
What a query shows after a call that reports to have switched an overlay. Where a name occurs once it shows what was
asked for. Where it occurs more than once, an enabling in a transaction moves the overlay behind the others of its name,
and the query shows the next one.
-/

set_option autoImplicit false
set_option relaxedAutoImplicit false

namespace Overlays

open PriorityList

namespace PriorityList

/-- The states of the overlays of a name, the first of which a query shows. -/
def statesOf (name : String) (os : List Overlay) : List OverlayState :=
  (os.filter (·.name = name)).map (·.state)

variable {name : String} {os pre post : List Overlay} {o : Overlay}

theorem head?_statesOf (name : String) (os : List Overlay) :
    (statesOf name os).head? = (find? name os).map (·.state) := by
  rw [statesOf, List.head?_map, List.head?_filter, find?]

private theorem statesOf_append (name : String) (os os' : List Overlay) :
    statesOf name (os ++ os') = statesOf name os ++ statesOf name os' := by
  rw [statesOf, List.filter_append, List.map_append, ← statesOf, ← statesOf]

private theorem statesOf_cons_of_eq (h : o.name = name) (os : List Overlay) :
    statesOf name (o :: os) = o.state :: statesOf name os := by
  rw [statesOf, List.filter_cons_of_pos (by simpa using h), List.map_cons, ← statesOf]

private theorem statesOf_cons_of_ne (h : o.name ≠ name) (os : List Overlay) :
    statesOf name (o :: os) = statesOf name os := by
  rw [statesOf, List.filter_cons_of_neg (by simpa using h), ← statesOf]

private theorem statesOf_eq_nil_iff : statesOf name os = [] ↔ ∀ x ∈ os, x.name ≠ name := by
  simp [statesOf]

private theorem FirstAt.statesOf_eq (h : FirstAt name os pre o post) :
    statesOf name os = o.state :: statesOf name post := by
  rw [h.list_eq, statesOf_append, statesOf_eq_nil_iff.mpr h.before_ne, List.nil_append,
    statesOf_cons_of_eq h.name_eq]

private theorem FirstAt.statesOf_rearranged (h : FirstAt name os pre o post) (type : RequestType) :
    statesOf name (type.rearranged pre o post) =
      match type with
      | .setEnabled => (statesOf name os).tail ++ [.enabled]
      | .setDisabled => .disabled :: (statesOf name os).tail := by
  have none_before : statesOf name pre = [] := statesOf_eq_nil_iff.mpr h.before_ne
  rw [h.statesOf_eq, List.tail_cons]
  cases type with
  | setEnabled =>
    have last : statesOf name [o.withState .enabled] = [.enabled] :=
      statesOf_cons_of_eq (o := o.withState .enabled) h.name_eq []
    rw [RequestType.rearranged, statesOf_append, statesOf_append, none_before, last, List.nil_append]
  | setDisabled =>
    have named : (o.withState .disabled).name = name := h.name_eq
    rw [RequestType.rearranged, statesOf_append, none_before, List.nil_append, statesOf_cons_of_eq named]
    rfl

private theorem FirstAt.statesOf_rearranged_of_ne {other : String} (h : FirstAt name os pre o post)
    (ne : other ≠ name) (type : RequestType) :
    statesOf other (type.rearranged pre o post) = statesOf other os := by
  have differs : o.name ≠ other := fun same => ne (same.symm.trans h.name_eq)
  have skip (s : OverlayState) (rest : List Overlay) :
      statesOf other (o.withState s :: rest) = statesOf other rest :=
    statesOf_cons_of_ne (o := o.withState s) differs rest
  rw [h.list_eq, statesOf_append, statesOf_cons_of_ne differs]
  cases type with
  | setEnabled =>
    rw [RequestType.rearranged, statesOf_append, statesOf_append, skip]
    exact List.append_nil _
  | setDisabled => rw [RequestType.rearranged, statesOf_append, skip]

end PriorityList

namespace Transaction

/-- How often a transaction enables an overlay of a user. -/
def enablings (t : Transaction) (user : UserId) (name : String) : Nat := (t.enabledNames user).count name

/-- The states of the overlays of a name after a transaction. Each enabling takes the first one to their end; a
disabling counts if no enabling comes behind it. -/
def statesAfter (t : Transaction) (user : UserId) (name : String) (states : List OverlayState) :
    List OverlayState :=
  let turned := (states ++ List.replicate (t.enablings user name) OverlayState.enabled).drop (t.enablings user name)
  if t.asked? user name = some .setDisabled then .disabled :: turned.tail else turned

variable (qs : List Request) (q : Request) (user : UserId) (name : String) (states : List OverlayState)

private theorem statesAfter_nil : statesAfter ⟨[]⟩ user name states = states := by
  simp [statesAfter, enablings, enabledNames, asked?, requestsFor]

private theorem enablings_concat_of_enabling (here : q.user = user) (named : q.package = name)
    (known : q.kind.known? = some .setEnabled) :
    enablings ⟨qs ++ [q]⟩ user name = enablings ⟨qs⟩ user name + 1 := by
  rw [enablings, enabledNames_concat_of_enabling qs q user here known, List.count_append, ← enablings, named]
  simp

private theorem enablings_concat_of_not
    (h : ¬((q.user = user ∧ q.package = name) ∧ q.kind.known? = some .setEnabled)) :
    enablings ⟨qs ++ [q]⟩ user name = enablings ⟨qs⟩ user name := by
  by_cases enabling : q.user = user ∧ q.kind.known? = some .setEnabled
  · have other : q.package ≠ name := fun named => h ⟨⟨enabling.1, named⟩, enabling.2⟩
    rw [enablings, enabledNames_concat_of_enabling qs q user enabling.1 enabling.2, List.count_append, ← enablings]
    simp [other]
  · rw [enablings, enabledNames_concat_of_not qs q user enabling, ← enablings]

private theorem statesAfter_concat_of_ne (h : ¬(q.user = user ∧ q.package = name)) :
    statesAfter ⟨qs ++ [q]⟩ user name states = statesAfter ⟨qs⟩ user name states := by
  have same := enablings_concat_of_not qs q user name fun both => h both.1
  rw [statesAfter, same, asked?_concat, if_neg h, ← statesAfter]

private theorem tail_statesAfter : (statesAfter ⟨qs⟩ user name states).tail =
    (states ++ List.replicate (enablings ⟨qs⟩ user name) OverlayState.enabled).drop
      (enablings ⟨qs⟩ user name + 1) := by
  rw [statesAfter]
  split
  · rw [List.tail_cons, List.tail_drop]
  · rw [List.tail_drop]

private theorem statesAfter_concat_of_disabling (here : q.user = user) (named : q.package = name)
    (known : q.kind.known? = some .setDisabled) :
    statesAfter ⟨qs ++ [q]⟩ user name states = .disabled :: (statesAfter ⟨qs⟩ user name states).tail := by
  have same := enablings_concat_of_not qs q user name (by simp [known])
  have last : asked? ⟨qs ++ [q]⟩ user name = some .setDisabled := by
    rw [asked?_concat, if_pos ⟨here, named⟩, known]
  rw [statesAfter, if_pos last, same, tail_statesAfter, List.tail_drop]

private theorem statesAfter_concat_of_enabling (here : q.user = user) (named : q.package = name)
    (known : q.kind.known? = some .setEnabled) (some_there : states ≠ []) :
    statesAfter ⟨qs ++ [q]⟩ user name states = (statesAfter ⟨qs⟩ user name states).tail ++ [.enabled] := by
  have more := enablings_concat_of_enabling qs q user name here named known
  have last : ¬ asked? ⟨qs ++ [q]⟩ user name = some .setDisabled := by
    rw [asked?_concat, if_pos ⟨here, named⟩, known]
    decide
  have long_enough : enablings ⟨qs⟩ user name + 1 ≤
      (states ++ List.replicate (enablings ⟨qs⟩ user name) OverlayState.enabled).length := by
    have positive : 0 < states.length := List.length_pos_iff.mpr some_there
    rw [List.length_append, List.length_replicate]
    omega
  rw [statesAfter, if_neg last, more, tail_statesAfter, List.replicate_succ', ← List.append_assoc,
    List.drop_append_of_le_length long_enough]

end Transaction

namespace Registry

variable {r r' : Registry} {user : UserId} {name : String}

private theorem statesOf_ne_nil (h : name ∈ (r.overlays user).map Overlay.name) :
    statesOf name (r.overlays user) ≠ [] := by
  intro empty
  obtain ⟨o, member, named⟩ := List.mem_map.mp h
  exact statesOf_eq_nil_iff.mp empty o member named

theorem statesOf_apply {q : Request} (h : r.apply q = .ok r') (user : UserId) (name : String) :
    statesOf name (r'.overlays user) =
      if q.user = user ∧ q.package = name then
        if q.kind.known? = some .setEnabled then (statesOf name (r.overlays user)).tail ++ [.enabled]
        else .disabled :: (statesOf name (r.overlays user)).tail
      else statesOf name (r.overlays user) := by
  obtain ⟨type, pre, o, post, known, first, -, -, rfl⟩ := apply_ok_iff.mp h
  by_cases here : user = q.user
  · subst here
    rw [overlays_withOverlays_self]
    by_cases named : name = q.package
    · subst named
      rw [if_pos ⟨rfl, rfl⟩, first.statesOf_rearranged type, known]
      cases type with
      | setEnabled => rfl
      | setDisabled => rfl
    · rw [if_neg fun both => named both.2.symm, first.statesOf_rearranged_of_ne named type]
  · rw [if_neg fun both => here both.1.symm, overlays_withOverlays_ne r here]

private theorem statesOf_commit {qs : List Request} (h : r.commit ⟨qs⟩ = .ok r') (user : UserId) (name : String) :
    statesOf name (r'.overlays user) =
      Transaction.statesAfter ⟨qs⟩ user name (statesOf name (r.overlays user)) := by
  -- the last request decides, so the requests are taken off at the end
  induction qs using List.reverseRecOn generalizing r' with
  | nil =>
    cases h
    exact (Transaction.statesAfter_nil user name _).symm
  | append_singleton qs q ih =>
    obtain ⟨r₁, before, last⟩ := commit_concat_ok_iff.mp h
    rw [statesOf_apply last user name, ih before]
    by_cases addressed : q.user = user ∧ q.package = name
    · obtain ⟨here, named⟩ := addressed
      obtain ⟨type, -, -, -, known, -⟩ := apply_ok_iff.mp last
      have some_there : statesOf name (r.overlays user) ≠ [] := by
        have present := requests_present_of_commit h q (by simp)
        rw [here, named] at present
        exact statesOf_ne_nil present
      rw [if_pos ⟨here, named⟩]
      cases type with
      | setEnabled =>
        rw [if_pos known, Transaction.statesAfter_concat_of_enabling qs q user name _ here named known some_there]
      | setDisabled =>
        rw [if_neg (by simp [known]), Transaction.statesAfter_concat_of_disabling qs q user name _ here named known]
    · rw [if_neg addressed, Transaction.statesAfter_concat_of_ne qs q user name _ addressed]

end Registry

namespace Call

/-- What a call asks for an overlay of a user in the end: on, off, or nothing. -/
def asks? (user : UserId) (name : String) : Call → Option Bool
  | .change c u => if user = u then c.asks? name else none
  | .commit t => (t.asked? user name).map (· = .setEnabled)
  | _ => none

/-- The state of the overlay that stands as many places behind the first one of its name as a transaction enables that
name, and so comes to be the first one; nothing if the transaction gets back to one that it has enabled itself. -/
def uncovers? (user : UserId) (name : String) (r : Registry) : Call → Option OverlayState
  | .commit t => (statesOf name (r.overlays user))[t.enablings user name]?
  | _ => none

end Call

namespace PriorityList

variable {name : String} {os os' : List Overlay}

private theorem find?_disableOthers (name : String) (p : Overlay → Bool) (os : List Overlay) :
    find? name (disableOthers name p os) = find? name os := by
  rw [disableOthers, find?_map]
  · cases found : find? name os with
    | none => rfl
    | some o =>
      have named := (name_of_find? found).2
      rw [Option.map_some, if_neg fun chosen => chosen.1 named]
  · intro o
    split
    · rfl
    · rfl

private theorem shown_of_setEnabled {enable : Bool} (h : setEnabled name enable os = some os') :
    (find? name os').map (·.state) = some (.ofFlag enable) := by
  obtain ⟨pre, o, post, first, -, -, rfl⟩ := setEnabled_eq_some_iff.mp h
  rw [first.find?_withState]
  rfl

end PriorityList

private theorem Change.shown_of_apply {c : Change} {name : String} {enable : Bool} {os os' : List Overlay}
    (asks : c.asks? name = some enable) (h : c.apply os = some os') :
    (find? name os').map (·.state) = some (.ofFlag enable) := by
  cases c with
  | setEnabled n e =>
    obtain ⟨rfl, asked⟩ := Option.ite_none_right_eq_some.mp asks
    cases asked
    exact shown_of_setEnabled h
  | setEnabledExclusive n e =>
    obtain ⟨rfl, asked⟩ := Option.ite_none_right_eq_some.mp asks
    cases asked
    obtain ⟨o, switched, -, done, rfl⟩ := setEnabledExclusive_eq_some_iff.mp h
    split
    · rw [find?_disableOthers]
      exact shown_of_setEnabled done
    · exact shown_of_setEnabled done
  | setEnabledExclusiveInCategory n =>
    obtain ⟨rfl, asked⟩ := Option.ite_none_right_eq_some.mp asks
    cases asked
    obtain ⟨o, category, switched, -, -, done, rfl⟩ := setEnabledExclusiveInCategory_eq_some_iff.mp h
    rw [find?_disableOthers]
    exact shown_of_setEnabled done
  | setPriority n parent => cases asks
  | setHighestPriority n => cases asks
  | setLowestPriority n => cases asks

namespace Registry

variable {r r' : Registry} {user : UserId} {name : String}

theorem shown_of_change? {c : Change} {enable : Bool} (asks : c.asks? name = some enable)
    (h : r.change? user c = some r') : (r'.info? name user).map (·.state) = some (.ofFlag enable) := by
  obtain ⟨os, made, rfl⟩ := change?_eq_some_iff.mp h
  have shown := c.shown_of_apply asks made
  rw [info?_map_state, overlays_withOverlays_self]
  exact shown

private theorem shown_of_commit_disabling {t : Transaction} (h : r.commit t = .ok r')
    (last : t.asked? user name = some .setDisabled) :
    (r'.info? name user).map (·.state) = some .disabled := by
  obtain ⟨qs⟩ := t
  rw [info?_map_state, ← head?_statesOf, statesOf_commit h, Transaction.statesAfter, if_pos last]
  rfl

/-- What is seen after a transaction that enables an overlay last: the overlay of that name that stood as many places
behind the first one as there are enablings, if there was one. -/
private theorem shown_of_commit_enabling {t : Transaction} (h : r.commit t = .ok r')
    (last : t.asked? user name = some .setEnabled) :
    (r'.info? name user).map (·.state) =
      some (((statesOf name (r.overlays user))[t.enablings user name]?).getD .enabled) := by
  obtain ⟨qs⟩ := t
  have not_off : ¬ Transaction.asked? ⟨qs⟩ user name = some .setDisabled := by
    rw [last]
    decide
  obtain ⟨q, asked, known⟩ := Option.bind_eq_some_iff.mp last
  obtain ⟨requested, addressed⟩ := List.mem_filter.mp (List.mem_of_getLast? asked)
  obtain ⟨here, named⟩ : q.user = user ∧ q.package = name := of_decide_eq_true addressed
  have some_there : 0 < (statesOf name (r.overlays user)).length := by
    have present := requests_present_of_commit h q requested
    rw [here, named] at present
    exact List.length_pos_iff.mpr (statesOf_ne_nil present)
  have enabled_once : 0 < Transaction.enablings ⟨qs⟩ user name := by
    have listed : q ∈ qs.filter fun q => q.user = user ∧ q.kind.known? = some .setEnabled :=
      List.mem_filter.mpr ⟨requested, decide_eq_true ⟨here, known⟩⟩
    exact List.count_pos_iff.mpr (List.mem_map.mpr ⟨q, listed, named⟩)
  rw [info?_map_state, ← head?_statesOf, statesOf_commit h, Transaction.statesAfter, if_neg not_off,
    List.head?_drop]
  generalize Transaction.enablings ⟨qs⟩ user name = k at enabled_once ⊢
  by_cases short : k < (statesOf name (r.overlays user)).length
  · rw [List.getElem?_append_left short, List.getElem?_eq_getElem short]
    rfl
  · have beyond : (statesOf name (r.overlays user)).length ≤ k := Nat.le_of_not_lt short
    have within : k - (statesOf name (r.overlays user)).length < k := by omega
    rw [List.getElem?_append_right beyond, List.getElem?_replicate_of_lt within, List.getElem?_eq_none beyond]
    rfl

/-- A reported success is seen in the next query, unless a transaction has enabled the overlay last and another one of
its name, which is not enabled, has come to stand in front of it. -/
theorem shown_iff_uncovered {c : Call} {enable : Bool} (asks : c.asks? user name = some enable)
    (made : c.effect? r = some r') :
    (r'.info? name user).map (·.state) = some (.ofFlag enable) ↔
      (enable = true → ∀ s, c.uncovers? user name r = some s → s = .enabled) := by
  cases c with
  | change c u =>
    obtain ⟨rfl, asked⟩ := Option.ite_none_right_eq_some.mp asks
    exact iff_of_true (shown_of_change? asked made) fun _ s uncovered => by cases uncovered
  | commit t =>
    obtain ⟨-, committed⟩ := Call.effect?_commit_eq_some_iff.mp made
    obtain ⟨type, last, rfl⟩ := Option.map_eq_some_iff.mp asks
    cases type with
    | setDisabled => exact iff_of_true (shown_of_commit_disabling committed last) (by simp)
    | setEnabled =>
      rw [shown_of_commit_enabling committed last, Call.uncovers?]
      cases (statesOf name (r.overlays user))[t.enablings user name]? with
      | none => simp [OverlayState.ofFlag]
      | some s => simp [OverlayState.ofFlag]
  | all user => cases asks
  | target name user => cases asks
  | info package user => cases asks
  | lookup loaded resource user => cases asks

/-- Two overlays of one name, neither of which is enabled. -/
private def twins : Registry where
  targets := ∅
  users := ⟨[(⟨0⟩, [⟨"dusk", "app", none, .disabled, true, ∅⟩, ⟨"dusk", "other", none, .disabled, true, ∅⟩])],
    by simp⟩

private def enableDusk : Transaction := ⟨[⟨.ofType .setEnabled, "dusk", ⟨0⟩, by decide⟩]⟩

private def twinsAfter : Registry where
  targets := ∅
  users := ⟨[(⟨0⟩, [⟨"dusk", "other", none, .disabled, true, ∅⟩, ⟨"dusk", "app", none, .enabled, true, ∅⟩])],
    by simp⟩

theorem shown_iff_uncovered_of_twins :
    (Call.commit enableDusk).asks? ⟨0⟩ "dusk" = some true ∧
      (Call.commit enableDusk).effect? twins = some twinsAfter ∧
      (Call.commit enableDusk).uncovers? ⟨0⟩ "dusk" twins = some .disabled ∧
      (twinsAfter.info? "dusk" ⟨0⟩).map (·.state) ≠ some .enabled := by
  have asks : (Call.commit enableDusk).asks? ⟨0⟩ "dusk" = some true := by decide
  have made : (Call.commit enableDusk).effect? twins = some twinsAfter := rfl
  have uncovered : (Call.commit enableDusk).uncovers? ⟨0⟩ "dusk" twins = some .disabled := by decide
  refine ⟨asks, made, uncovered, fun shown => ?_⟩
  have enabled := (shown_iff_uncovered asks made).mp shown rfl .disabled uncovered
  cases enabled

/-- The transaction is carried out, and the query shows the other overlay of the name. -/
theorem enabling_hidden_by_namesake :
    Registry.ofText? "users:\n  0:\n  - name: dusk\n    target: app\n  - name: dusk\n    target: other\n" =
        some twins ∧
      twins.commit enableDusk = .ok twinsAfter ∧
      (twinsAfter.info? "dusk" ⟨0⟩).map (·.state) = some .disabled := by
  decide +kernel

end Registry

end Overlays
