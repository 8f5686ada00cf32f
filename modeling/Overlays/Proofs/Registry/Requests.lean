import Overlays.Proofs.Registry.Commit

/-!
What a request asks of the overlay that it names, and what it comes to, said without carrying it out. A batch is carried
out request by request, or turned down for the first request that something speaks against.
-/

set_option autoImplicit false
set_option relaxedAutoImplicit false

namespace Overlays

open PriorityList

/-- Why a request is turned down, given the overlay that it names, if there is one. -/
def Request.refusal? (q : Request) (named : Option Overlay) : Option Refusal :=
  match q.kind.known? with
  | none => some (.unsupported q)
  | some type =>
    match named with
    | none => some (.packageNotFound q.package q.user)
    | some o =>
      if ¬o.canChange then some (.immutable q.package)
      else if type = .setEnabled ∧ o.state = .missingTarget then some (.targetMissing q.package)
      else none

/-- A request is carried out. Nothing speaks against it, the overlays of its user are rearranged around the one that it
names, and all else stays as it is. -/
structure Request.CarriedOut (q : Request) (r r' : Registry) : Prop where
  rearranged : ∃ type pre o post, q.kind.known? = some type ∧ FirstAt q.package (r.overlays q.user) pre o post ∧
    q.refusal? (some o) = none ∧ r'.overlays q.user = type.rearranged pre o post
  others : ∀ user, user ≠ q.user → r'.overlays user = r.overlays user
  targets_eq : r'.targets = r.targets
  users_eq : r'.users.keys = r.users.keys

/-- Requests are carried out one after the other. -/
inductive Registry.CarriesOut : Registry → List Request → Registry → Prop
  | nil (r : Registry) : CarriesOut r [] r
  | cons {r r₁ r' : Registry} {q : Request} {qs : List Request} (first : q.CarriedOut r r₁)
      (rest : CarriesOut r₁ qs r') : CarriesOut r (q :: qs) r'

/-- The turn comes to a request of a batch, on a registry that those in front of it have led to. -/
def Registry.ComesTo (r : Registry) (qs : List Request) (q : Request) (r₁ : Registry) : Prop :=
  ∃ done later, qs = done ++ q :: later ∧ r.CarriesOut done r₁

namespace Request

variable {q : Request} {type : RequestType} {o : Overlay} {named : Option Overlay} {e : Refusal}

private theorem refusal?_eq_none_iff (known : q.kind.known? = some type) :
    q.refusal? (some o) = none ↔ o.canChange = true ∧ ¬(type = .setEnabled ∧ o.state = .missingTarget) := by
  rw [refusal?, known]
  dsimp only
  by_cases changeable : o.canChange = true
  · rw [if_neg (not_not.mpr changeable)]
    by_cases missing : type = .setEnabled ∧ o.state = .missingTarget
    · simp [missing]
    · simp [changeable, missing]
  · simp [changeable]

private theorem refusal?_ne_none_iff (known : q.kind.known? ≠ none) : q.refusal? (some o) ≠ none ↔
    o.canChange = false ∨ q.kind.known? = some .setEnabled ∧ o.state = .missingTarget := by
  obtain ⟨type, known⟩ := Option.ne_none_iff_exists'.mp known
  rw [ne_eq, refusal?_eq_none_iff known, known, Option.some.injEq, not_and_or, Bool.not_eq_true, not_not]

private theorem refusal?_of_unknown (q : Request) : q.refusal? none ≠ none := by
  unfold refusal?
  cases q.kind.known? with
  | none => exact Option.some_ne_none _
  | some type => exact Option.some_ne_none _

private theorem fault?_eq_none_iff (known : q.kind.known? ≠ none) (h : q.refusal? named = some e) :
    e.fault? = none ↔ named = none := by
  obtain ⟨type, known⟩ := Option.ne_none_iff_exists'.mp known
  rw [refusal?, known] at h
  dsimp only at h
  cases named with
  | none =>
    cases h
    exact iff_of_true rfl rfl
  | some o =>
    refine iff_of_false ?_ (Option.some_ne_none o)
    dsimp only at h
    split at h
    · cases h
      simp [Refusal.fault?]
    · split at h
      · cases h
        simp [Refusal.fault?]
      · cases h

end Request

namespace Registry

variable {r r' : Registry} {q : Request} {qs : List Request} {e : Refusal}

theorem apply_error_iff : r.apply q = .error e ↔ q.refusal? (find? q.package (r.overlays q.user)) = some e := by
  unfold apply Request.refusal?
  cases q.kind.known? with
  | none => simp
  | some type =>
    dsimp only
    cases find? q.package (r.overlays q.user) with
    | none => simp
    | some o =>
      dsimp only
      by_cases changeable : o.canChange = true
      · cases type with
        | setDisabled => simp [changeable]
        | setEnabled =>
          by_cases missing : o.state = .missingTarget
          · simp [changeable, missing]
          · simp [changeable, missing]
      · rw [if_pos changeable, if_pos changeable, Except.error.injEq, Option.some.injEq]

private theorem eq_of_overlays (targets : r'.targets = r.targets) (users : r'.users.keys = r.users.keys)
    (overlays : ∀ user, r'.overlays user = r.overlays user) : r' = r := by
  apply Registry.ext targets
  apply SortedMap.ext_get?
  intro user
  have listed : r'.users.get? user = none ↔ r.users.get? user = none := by
    rw [SortedMap.get?_eq_none_iff, SortedMap.get?_eq_none_iff, users]
  have same := overlays user
  rw [Registry.overlays, Registry.overlays] at same
  cases found : r.users.get? user with
  | none => exact listed.mpr found
  | some os =>
    have bound : r'.users.get? user ≠ none := by
      intro unbound
      rw [listed.mp unbound] at found
      cases found
    obtain ⟨os', found'⟩ := Option.ne_none_iff_exists'.mp bound
    rw [found, found'] at same
    rw [found']
    exact congrArg some same

private theorem carriedOut_iff_apply : q.CarriedOut r r' ↔ r.apply q = .ok r' := by
  rw [apply_ok_iff]
  constructor
  · intro h
    obtain ⟨type, pre, o, post, known, first, unrefused, rearranged⟩ := h.rearranged
    obtain ⟨changeable, present⟩ := (Request.refusal?_eq_none_iff known).mp unrefused
    refine ⟨type, pre, o, post, known, first, changeable, present, ?_⟩
    have targets : r'.targets = (r.withOverlays q.user (type.rearranged pre o post)).targets := h.targets_eq
    have users : r'.users.keys = (r.withOverlays q.user (type.rearranged pre o post)).users.keys :=
      h.users_eq.trans (users_withOverlays (FirstAt.overlays_ne_nil first) _).symm
    apply eq_of_overlays targets users
    intro user
    by_cases here : user = q.user
    · rw [here, rearranged, overlays_withOverlays_self]
    · rw [h.others user here, overlays_withOverlays_ne r here]
  · intro h
    obtain ⟨type, pre, o, post, known, first, changeable, present, rfl⟩ := h
    have unrefused : q.refusal? (some o) = none := (Request.refusal?_eq_none_iff known).mpr ⟨changeable, present⟩
    refine ⟨⟨type, pre, o, post, known, first, unrefused, overlays_withOverlays_self r q.user _⟩, ?_, rfl, ?_⟩
    · intro user other
      exact overlays_withOverlays_ne r other _
    · exact users_withOverlays (FirstAt.overlays_ne_nil first) _

/-- Carrying out a batch is carrying out its requests one after the other. -/
theorem carriesOut_iff_commit : r.CarriesOut qs r' ↔ r.commit ⟨qs⟩ = .ok r' := by
  induction qs generalizing r with
  | nil =>
    constructor
    · intro h
      cases h
      rfl
    · intro h
      cases h
      exact .nil _
  | cons q qs ih =>
    rw [commit_cons_ok_iff]
    constructor
    · intro h
      cases h with
      | @cons _ r₁ _ _ _ first rest => exact ⟨r₁, carriedOut_iff_apply.mp first, ih.mp rest⟩
    · intro h
      obtain ⟨r₁, first, rest⟩ := h
      exact .cons (carriedOut_iff_apply.mpr first) (ih.mpr rest)

/-- A batch is turned down exactly if the turn comes to a request that something speaks against, and for that. -/
private theorem commit_error_iff_comesTo : r.commit ⟨qs⟩ = .error e ↔
    ∃ q r₁, r.ComesTo qs q r₁ ∧ q.refusal? (find? q.package (r₁.overlays q.user)) = some e := by
  rw [commit_error_iff]
  constructor
  · intro h
    obtain ⟨done, q, later, r₁, parts, before, refused⟩ := h
    exact ⟨q, r₁, ⟨done, later, parts, carriesOut_iff_commit.mpr before⟩, apply_error_iff.mp refused⟩
  · intro h
    obtain ⟨q, r₁, ⟨done, later, parts, before⟩, refused⟩ := h
    exact ⟨done, q, later, r₁, parts, carriesOut_iff_commit.mp before, apply_error_iff.mpr refused⟩

private theorem ComesTo.mem {r₁ : Registry} (h : r.ComesTo qs q r₁) : q ∈ qs := by
  obtain ⟨done, later, rfl, -⟩ := h
  exact List.mem_append_right done List.mem_cons_self

theorem comesTo_unknown_iff (known : ∀ q ∈ qs, q.kind.known? ≠ none) :
    (∃ q r₁, r.ComesTo qs q r₁ ∧ find? q.package (r₁.overlays q.user) = none) ↔
      ∃ e, r.commit ⟨qs⟩ = .error e ∧ e.fault? = none := by
  constructor
  · intro h
    obtain ⟨q, r₁, turn, unknown⟩ := h
    obtain ⟨e, refusal⟩ := Option.ne_none_iff_exists'.mp q.refusal?_of_unknown
    rw [← unknown] at refusal
    have faultless := (Request.fault?_eq_none_iff (known q turn.mem) refusal).mpr unknown
    exact ⟨e, commit_error_iff_comesTo.mpr ⟨q, r₁, turn, refusal⟩, faultless⟩
  · intro h
    obtain ⟨e, refused, faultless⟩ := h
    obtain ⟨q, r₁, turn, refusal⟩ := commit_error_iff_comesTo.mp refused
    exact ⟨q, r₁, turn, (Request.fault?_eq_none_iff (known q turn.mem) refusal).mp faultless⟩

theorem comesTo_blocked_iff (known : ∀ q ∈ qs, q.kind.known? ≠ none) :
    (∃ q r₁ o, r.ComesTo qs q r₁ ∧ find? q.package (r₁.overlays q.user) = some o ∧
      (o.canChange = false ∨ q.kind.known? = some .setEnabled ∧ o.state = .missingTarget)) ↔
      ∃ e, r.commit ⟨qs⟩ = .error e ∧ e.fault? ≠ none := by
  constructor
  · intro h
    obtain ⟨q, r₁, o, turn, named, blocked⟩ := h
    have refusable := (Request.refusal?_ne_none_iff (known q turn.mem)).mpr blocked
    obtain ⟨e, refusal⟩ := Option.ne_none_iff_exists'.mp refusable
    rw [← named] at refusal
    refine ⟨e, commit_error_iff_comesTo.mpr ⟨q, r₁, turn, refusal⟩, ?_⟩
    rw [ne_eq, Request.fault?_eq_none_iff (known q turn.mem) refusal, named]
    exact Option.some_ne_none o
  · intro h
    obtain ⟨e, refused, faulty⟩ := h
    obtain ⟨q, r₁, turn, refusal⟩ := commit_error_iff_comesTo.mp refused
    rw [ne_eq, Request.fault?_eq_none_iff (known q turn.mem) refusal] at faulty
    obtain ⟨o, named⟩ := Option.ne_none_iff_exists'.mp faulty
    rw [named] at refusal
    have refusable : q.refusal? (some o) ≠ none := by
      rw [refusal]
      exact Option.some_ne_none e
    exact ⟨q, r₁, o, turn, named, (Request.refusal?_ne_none_iff (known q turn.mem)).mp refusable⟩

end Registry

end Overlays
