import Mathlib.Data.List.Basic
import Overlays.Proofs.Registry.PriorityList

/-!
Transactions are carried out request by request, and each request comes to the same as the separate calls for it: an
enabling is a switch followed by a move to the highest priority, a disabling is a switch.
-/

set_option autoImplicit false
set_option relaxedAutoImplicit false

namespace Overlays

open PriorityList

/-- The overlays after a request that is carried out for the overlay between the two parts. -/
def RequestType.rearranged : RequestType → List Overlay → Overlay → List Overlay → List Overlay
  | .setEnabled, pre, o, post => pre ++ post ++ [o.withState .enabled]
  | .setDisabled, pre, o, post => pre ++ o.withState .disabled :: post

namespace Registry

theorem apply_ok_iff {r r' : Registry} {q : Request} :
    r.apply q = .ok r' ↔ ∃ type pre o post, q.kind.known? = some type ∧
      FirstAt q.package (r.overlays q.user) pre o post ∧ o.canChange = true ∧
      ¬(type = .setEnabled ∧ o.state = .missingTarget) ∧
      r' = r.withOverlays q.user (type.rearranged pre o post) := by
  constructor
  · intro h
    rw [apply] at h
    split at h
    · cases h
    rename_i type known
    dsimp only at h
    split at h
    · cases h
    rename_i o found
    obtain ⟨pre, post, first⟩ := find?_eq_some_iff.mp found
    split at h
    · cases h
    rename_i changeable
    have changeable : o.canChange = true := by simpa using changeable
    cases type with
    | setEnabled =>
      dsimp only at h
      split at h
      · cases h
      · rename_i present
        cases h
        exact ⟨.setEnabled, pre, o, post, known, first, changeable, fun both => present both.2,
          by rw [first.eraseFirst_eq, RequestType.rearranged]⟩
    | setDisabled =>
      cases h
      exact ⟨.setDisabled, pre, o, post, known, first, changeable, by simp,
        by rw [first.updateFirst_eq, RequestType.rearranged]⟩
  · intro h
    obtain ⟨type, pre, o, post, known, first, changeable, present, rfl⟩ := h
    rw [apply, known]
    dsimp only
    rw [first.find?_eq]
    dsimp only
    rw [if_neg (by simp [changeable])]
    cases type with
    | setEnabled =>
      have present : ¬ o.state = .missingTarget := fun missing => present ⟨rfl, missing⟩
      dsimp only
      rw [if_neg present, first.eraseFirst_eq, RequestType.rearranged]
    | setDisabled =>
      dsimp only
      rw [first.updateFirst_eq, RequestType.rearranged]

theorem commit_cons_ok_iff {r r' : Registry} {q : Request} {qs : List Request} :
    r.commit ⟨q :: qs⟩ = .ok r' ↔ ∃ r₁, r.apply q = .ok r₁ ∧ r₁.commit ⟨qs⟩ = .ok r' := by
  rw [commit, List.foldlM_cons]
  cases r.apply q with
  | error e =>
    constructor
    · intro h
      cases h
    · intro h
      obtain ⟨r₁, h, -⟩ := h
      cases h
  | ok r₁ =>
    constructor
    · intro h
      exact ⟨r₁, rfl, h⟩
    · intro h
      obtain ⟨r₂, h, h'⟩ := h
      cases h
      exact h'

theorem commit_append_ok_iff {r r' : Registry} {qs qs' : List Request} :
    r.commit ⟨qs ++ qs'⟩ = .ok r' ↔ ∃ r₁, r.commit ⟨qs⟩ = .ok r₁ ∧ r₁.commit ⟨qs'⟩ = .ok r' := by
  induction qs generalizing r with
  | nil =>
    constructor
    · intro h
      exact ⟨r, rfl, h⟩
    · intro h
      obtain ⟨r₁, h, h'⟩ := h
      cases h
      exact h'
  | cons q qs ih =>
    simp only [List.cons_append, commit_cons_ok_iff, ih]
    constructor
    · intro h
      obtain ⟨r₁, first, r₂, rest, h⟩ := h
      exact ⟨r₂, ⟨r₁, first, rest⟩, h⟩
    · intro h
      obtain ⟨r₂, ⟨r₁, first, rest⟩, h⟩ := h
      exact ⟨r₁, first, r₂, rest, h⟩

theorem commit_concat_ok_iff {r r' : Registry} {qs : List Request} {q : Request} :
    r.commit ⟨qs ++ [q]⟩ = .ok r' ↔ ∃ r₁, r.commit ⟨qs⟩ = .ok r₁ ∧ r₁.apply q = .ok r' := by
  have single (r₁ : Registry) : r₁.commit ⟨[q]⟩ = .ok r' ↔ r₁.apply q = .ok r' := by
    rw [commit_cons_ok_iff]
    constructor
    · intro h
      obtain ⟨r₂, h, h'⟩ := h
      cases h'
      exact h
    · intro h
      exact ⟨r', h, rfl⟩
  simp only [commit_append_ok_iff, single]

theorem commit_error_iff {r : Registry} {qs : List Request} {e : Refusal} :
    r.commit ⟨qs⟩ = .error e ↔ ∃ before q after r₁, qs = before ++ q :: after ∧
      r.commit ⟨before⟩ = .ok r₁ ∧ r₁.apply q = .error e := by
  induction qs generalizing r with
  | nil =>
    constructor
    · intro h
      cases h
    · intro h
      obtain ⟨before, q, after, r₁, h, -, -⟩ := h
      simp at h
  | cons q qs ih =>
    rw [commit, List.foldlM_cons]
    cases applied : r.apply q with
    | error e' =>
      constructor
      · intro h
        cases h
        exact ⟨[], q, qs, r, rfl, rfl, applied⟩
      · intro h
        obtain ⟨before, q', after, r₁, split, h, refused⟩ := h
        cases before with
        | nil =>
          cases split
          cases h
          rw [← refused, applied]
          rfl
        | cons b before =>
          cases split
          obtain ⟨r₂, first, -⟩ := commit_cons_ok_iff.mp h
          rw [applied] at first
          cases first
    | ok r₁ =>
      change r₁.commit ⟨qs⟩ = .error e ↔ _
      rw [ih]
      constructor
      · intro h
        obtain ⟨before, q', after, r₂, rfl, h, refused⟩ := h
        exact ⟨q :: before, q', after, r₂, rfl, commit_cons_ok_iff.mpr ⟨r₁, applied, h⟩, refused⟩
      · intro h
        obtain ⟨before, q', after, r₂, split, h, refused⟩ := h
        cases before with
        | nil =>
          cases split
          cases h
          rw [applied] at refused
          cases refused
        | cons b before =>
          cases split
          obtain ⟨r₃, first, rest⟩ := commit_cons_ok_iff.mp h
          rw [applied] at first
          cases first
          exact ⟨before, q', after, r₂, rfl, rest, refused⟩

/-- The answer to a call for a change: whether it was made, and the registry after it. -/
def answer (r : Registry) (user : UserId) (c : Change) : Bool × Registry :=
  match r.change? user c with
  | some r' => (true, r')
  | none => (false, r)

theorem answer_fst (r : Registry) (user : UserId) (c : Change) :
    (r.answer user c).1 = (c.apply (r.overlays user)).isSome := by
  rw [answer, change?]
  cases c.apply (r.overlays user) with
  | none => rfl
  | some os => rfl

theorem answer_eq_true_iff {r r' : Registry} {user : UserId} {c : Change} :
    r.answer user c = (true, r') ↔ r.change? user c = some r' := by
  rw [answer]
  cases r.change? user c with
  | none => simp
  | some r₁ => simp

theorem answer_snd_of_false {r : Registry} {user : UserId} {c : Change} (refused : (r.answer user c).1 = false) :
    (r.answer user c).2 = r := by
  rw [answer] at refused ⊢
  cases changed : r.change? user c with
  | none => rfl
  | some r₁ =>
    rw [changed] at refused
    cases refused

/-- The answers to calls that are made one after the other, and the registry after the last one. -/
def answers : Registry → List (UserId × Change) → List Bool × Registry
  | r, [] => ([], r)
  | r, (user, c) :: calls =>
    let (made, r₁) := r.answer user c
    let (rest, r₂) := r₁.answers calls
    (made :: rest, r₂)

/-- Changes that all have to be made. -/
def changeAll? (r : Registry) (calls : List (UserId × Change)) : Option Registry :=
  calls.foldlM (fun r call => r.change? call.1 call.2) r

theorem changeAll?_eq_some_iff {r r' : Registry} {calls : List (UserId × Change)} :
    r.changeAll? calls = some r' ↔
      (∀ made ∈ (r.answers calls).1, made = true) ∧ (r.answers calls).2 = r' := by
  induction calls generalizing r with
  | nil => simp [changeAll?, answers]
  | cons call calls ih =>
    obtain ⟨user, c⟩ := call
    rw [changeAll?, List.foldlM_cons]
    cases changed : r.change? user c with
    | none => simp [answers, answer, changed]
    | some r₁ =>
      simp only [answers, answer, changed, List.forall_mem_cons, true_and]
      exact ih

private theorem changeAll?_append (r : Registry) (calls calls' : List (UserId × Change)) :
    r.changeAll? (calls ++ calls') = (r.changeAll? calls).bind fun r₁ => r₁.changeAll? calls' := by
  rw [changeAll?, List.foldlM_append]
  rfl

end Registry

/-- The changes that a request comes to. -/
def Request.changes (q : Request) : List Change :=
  match q.kind.known? with
  | some .setEnabled => [.setEnabled q.package true, .setHighestPriority q.package]
  | some .setDisabled => [.setEnabled q.package false]
  | none => []

private theorem Request.changes_eq_cons {q : Request} {type : RequestType} (known : q.kind.known? = some type) :
    ∃ later, q.changes = .setEnabled q.package (decide (type = .setEnabled)) :: later := by
  cases type with
  | setEnabled => exact ⟨[.setHighestPriority q.package], by simp only [changes, known, decide_true]⟩
  | setDisabled => exact ⟨[], by simp only [changes, known, reduceCtorEq, decide_false]⟩

/-- The changes that a request comes to, as calls for its user. -/
def Request.calls (q : Request) : List (UserId × Change) := q.changes.map fun c => (q.user, c)

/-- The separate calls for the requests of a transaction. -/
def Transaction.calls (t : Transaction) : List (UserId × Change) := t.requests.flatMap Request.calls

namespace Registry

variable {r r' : Registry} {q : Request} {pre post : List Overlay} {o : Overlay}

private theorem changeAll?_of_enabling (known : q.kind.known? = some .setEnabled)
    (first : FirstAt q.package (r.overlays q.user) pre o post) (changeable : o.canChange = true)
    (present : ¬ o.state = .missingTarget) :
    r.changeAll? q.calls =
      some (r.withOverlays q.user (RequestType.setEnabled.rearranged pre o post)) := by
  have switched : r.change? q.user (.setEnabled q.package true) =
      some (r.withOverlays q.user (pre ++ o.withState .enabled :: post)) :=
    change?_eq_some_iff.mpr ⟨_, setEnabled_eq_some_iff.mpr
      ⟨pre, o, post, first, changeable, fun both => present both.2, rfl⟩, rfl⟩
  have after : (r.withOverlays q.user (pre ++ o.withState .enabled :: post)).overlays q.user =
      pre ++ o.withState .enabled :: post :=
    overlays_withOverlays_self r q.user _
  -- nothing in front of the overlay bears its name, and switching it on keeps that
  have moved : (r.withOverlays q.user (pre ++ o.withState .enabled :: post)).change? q.user
      (.setHighestPriority q.package) =
      some (r.withOverlays q.user (pre ++ post ++ [o.withState .enabled])) := by
    rw [change?_eq_some_iff, after]
    refine ⟨pre ++ post ++ [o.withState .enabled], setHighestPriority_eq_some_iff.mpr
      ⟨pre, o.withState .enabled, post, first.replace rfl, ?_, rfl⟩, ?_⟩
    · exact Overlay.canChange_withState changeable (by decide)
    · exact withOverlays_withOverlays _ _ _ _
  simp only [Request.calls, Request.changes, known, List.map_cons, List.map_nil, changeAll?,
    List.foldlM_cons, switched, Option.bind_eq_bind, Option.bind_some, moved, List.foldlM_nil,
    RequestType.rearranged]
  rfl

private theorem changeAll?_of_disabling (known : q.kind.known? = some .setDisabled)
    (first : FirstAt q.package (r.overlays q.user) pre o post) (changeable : o.canChange = true) :
    r.changeAll? q.calls =
      some (r.withOverlays q.user (RequestType.setDisabled.rearranged pre o post)) := by
  have switched : r.change? q.user (.setEnabled q.package false) =
      some (r.withOverlays q.user (pre ++ o.withState .disabled :: post)) :=
    change?_eq_some_iff.mpr ⟨_, setEnabled_eq_some_iff.mpr
      ⟨pre, o, post, first, changeable, by simp, rfl⟩, rfl⟩
  simp only [Request.calls, Request.changes, known, List.map_cons, List.map_nil, changeAll?,
    List.foldlM_cons, switched, Option.bind_eq_bind, Option.bind_some, List.foldlM_nil,
    RequestType.rearranged]
  rfl

private theorem firstAt_of_changeAll? {type : RequestType} (known : q.kind.known? = some type)
    (h : r.changeAll? q.calls = some r') : ∃ pre o post,
      FirstAt q.package (r.overlays q.user) pre o post ∧ o.canChange = true ∧
      ¬(type = .setEnabled ∧ o.state = .missingTarget) := by
  obtain ⟨later, changes⟩ := Request.changes_eq_cons known
  simp only [Request.calls, changes, List.map_cons, changeAll?, List.foldlM_cons,
    Option.bind_eq_bind, Option.bind_eq_some_iff] at h
  obtain ⟨r₁, switched, -⟩ := h
  obtain ⟨os, switched, -⟩ := change?_eq_some_iff.mp switched
  obtain ⟨pre, o, post, first, changeable, present, -⟩ := setEnabled_eq_some_iff.mp switched
  exact ⟨pre, o, post, first, changeable, fun both => present ⟨decide_eq_true both.1, both.2⟩⟩

/-- One request of a known kind comes to the same as the calls for it. -/
theorem apply_ok_iff_changeAll? (known : q.kind.known? ≠ none) :
    r.apply q = .ok r' ↔ r.changeAll? q.calls = some r' := by
  obtain ⟨type, known⟩ := Option.ne_none_iff_exists'.mp known
  have made {pre post : List Overlay} {o : Overlay}
      (first : FirstAt q.package (r.overlays q.user) pre o post) (changeable : o.canChange = true)
      (present : ¬(type = .setEnabled ∧ o.state = .missingTarget)) :
      r.changeAll? q.calls = some (r.withOverlays q.user (type.rearranged pre o post)) := by
    cases type with
    | setEnabled =>
      exact changeAll?_of_enabling known first changeable fun missing => present ⟨rfl, missing⟩
    | setDisabled => exact changeAll?_of_disabling known first changeable
  constructor
  · intro h
    obtain ⟨type', pre, o, post, known', first, changeable, present, rfl⟩ := apply_ok_iff.mp h
    cases Option.some.inj (known.symm.trans known')
    exact made first changeable present
  · intro h
    obtain ⟨pre, o, post, first, changeable, present⟩ := firstAt_of_changeAll? known h
    rw [made first changeable present] at h
    cases h
    exact apply_ok_iff.mpr ⟨type, pre, o, post, known, first, changeable, present, rfl⟩

/-- A transaction is carried out exactly if every one of the separate calls for its requests makes its change, and the
registry is then the same. -/
theorem commit_iff_answers (r r' : Registry) (t : Transaction)
    (known : ∀ q ∈ t.requests, q.kind.known? ≠ none) :
    r.commit t = .ok r' ↔
      (∀ made ∈ (r.answers t.calls).1, made = true) ∧ (r.answers t.calls).2 = r' := by
  rw [← changeAll?_eq_some_iff]
  obtain ⟨qs⟩ := t
  induction qs generalizing r with
  | nil => simp [commit, Transaction.calls, changeAll?, pure, Except.pure]
  | cons q qs ih =>
    obtain ⟨here, below⟩ := List.forall_mem_cons.mp known
    have unfolded : Transaction.calls ⟨q :: qs⟩ = q.calls ++ Transaction.calls ⟨qs⟩ := rfl
    rw [commit_cons_ok_iff, unfolded, changeAll?_append, Option.bind_eq_some_iff]
    apply exists_congr
    intro r₁
    rw [apply_ok_iff_changeAll? here, ih r₁ below]

/-- Two overlays of one name, and one between them. -/
private def repeatedNames : Registry where
  targets := ∅
  users := ⟨[(⟨0⟩, [⟨"night", "app", none, .disabled, true, ∅⟩, ⟨"wide", "app", none, .enabled, true, ∅⟩,
    ⟨"night", "other", none, .enabled, true, ∅⟩])], by simp⟩

private def enableThenDisable : Transaction :=
  ⟨[⟨.ofType .setEnabled, "night", ⟨0⟩, by decide⟩, ⟨.ofType .setDisabled, "night", ⟨0⟩, by decide⟩]⟩

/-- The enabling moves the first overlay of the name behind the second one, which the disabling then finds. -/
private def afterEnableThenDisable : Registry where
  targets := ∅
  users := ⟨[(⟨0⟩, [⟨"wide", "app", none, .enabled, true, ∅⟩, ⟨"night", "other", none, .disabled, true, ∅⟩,
    ⟨"night", "app", none, .enabled, true, ∅⟩])], by simp⟩

theorem commit_iff_answers_of_repeated_names :
    (∀ q ∈ enableThenDisable.requests, q.kind.known? ≠ none) ∧
      repeatedNames.commit enableThenDisable = .ok afterEnableThenDisable ∧
      (∀ made ∈ (repeatedNames.answers enableThenDisable.calls).1, made = true) ∧
      (repeatedNames.answers enableThenDisable.calls).2 = afterEnableThenDisable := by
  have known : ∀ q ∈ enableThenDisable.requests, q.kind.known? ≠ none := by decide
  have committed : repeatedNames.commit enableThenDisable = .ok afterEnableThenDisable := rfl
  exact ⟨known, committed,
    (commit_iff_answers repeatedNames afterEnableThenDisable enableThenDisable known).mp committed⟩

end Registry

end Overlays
