import Overlays.Proofs.Manager.Replies

set_option autoImplicit false
set_option relaxedAutoImplicit false

namespace Overlays.Registry

open PriorityList

variable {r r' : Registry} {user other : UserId}

private theorem overlays_of_apply_ne {q : Request} (elsewhere : q.user ≠ user) (h : r.apply q = .ok r') :
    r'.overlays user = r.overlays user := by
  obtain ⟨type, pre, o, post, -, -, -, -, rfl⟩ := apply_ok_iff.mp h
  exact overlays_withOverlays_ne r (Ne.symm elsewhere) _

private theorem overlays_of_commit_ne {qs : List Request} (elsewhere : ∀ q ∈ qs, q.user ≠ user)
    (h : r.commit ⟨qs⟩ = .ok r') : r'.overlays user = r.overlays user := by
  induction qs generalizing r with
  | nil =>
    cases h
    rfl
  | cons q qs ih =>
    obtain ⟨here, below⟩ := List.forall_mem_cons.mp elsewhere
    obtain ⟨r₁, first, rest⟩ := commit_cons_ok_iff.mp h
    rw [ih below rest, overlays_of_apply_ne here first]

private theorem overlays_next_of_ne {c : Call} (own : c.MadeFor (· = other)) (ne : user ≠ other) (r : Registry) :
    (c.next r).overlays user = r.overlays user := by
  cases effect : c.effect? r with
  | none => rw [Call.next_of_none effect]
  | some r₁ =>
    rw [Call.next_of_some effect]
    cases c with
    | change c u =>
      obtain ⟨os, -, -, elsewhere⟩ := overlays_of_change? effect
      obtain rfl : u = other := own
      exact elsewhere user ne
    | commit t =>
      obtain ⟨-, made⟩ := Call.effect?_commit_eq_some_iff.mp effect
      refine overlays_of_commit_ne ?_ made
      intro q listed same
      exact ne (same.symm.trans (own q listed))
    | all u => cases effect
    | target name u => cases effect
    | info package u => cases effect
    | lookup loaded resource u => cases effect

/-- The calls that are made for a user, among calls that each come with the user for whom it is made. -/
def ownedBy (user : UserId) (cs : List (UserId × Call)) : List (UserId × Call) := cs.filter (·.1 = user)

/-- The registry after calls. -/
def afterAll (r : Registry) (cs : List (UserId × Call)) : Registry := r.after (cs.map Prod.snd)

/-- The replies to calls, each with the user for whom the call is made. -/
def userReplies : Registry → List (UserId × Call) → List (UserId × Except Refusal Reply)
  | _, [] => []
  | r, (user, c) :: cs => (user, c.reply r) :: (c.next r).userReplies cs

/-- What is the same for a user in two registries stays the same when calls of other users are made in one of them only. -/
private theorem isolated_of_similar {cs : List (UserId × Call)} (own : ∀ c ∈ cs, c.2.MadeFor (· = c.1))
    (similar : r.Similar Eq (· = user) r') :
    (r.afterAll cs).Similar Eq (· = user) (r'.afterAll (ownedBy user cs)) ∧
      (r.userReplies cs).filter (·.1 = user) = r'.userReplies (ownedBy user cs) := by
  induction cs generalizing r r' with
  | nil => exact ⟨similar, rfl⟩
  | cons call cs ih =>
    obtain ⟨other, c⟩ := call
    obtain ⟨here, below⟩ := List.forall_mem_cons.mp own
    by_cases same : other = user
    · subst same
      have kept : ownedBy other ((other, c) :: cs) = (other, c) :: ownedBy other cs :=
        List.filter_cons_of_pos (by simp)
      obtain ⟨states, replies⟩ := ih below (similar.next isSimulation_eq here)
      rw [kept]
      refine ⟨states, ?_⟩
      rw [userReplies, userReplies, List.filter_cons_of_pos (by simp), replies,
        similar.reply_eq isSimulation_eq here]
    · have left_out : ownedBy user ((other, c) :: cs) = ownedBy user cs :=
        List.filter_cons_of_neg (by simpa using same)
      have unseen : (c.next r).Similar Eq (· = user) r' := by
        refine ⟨similar.targets_eq.trans (edited_next r c).targets_eq.symm, ?_⟩
        rintro _ rfl
        rw [overlays_next_of_ne here (Ne.symm same), similar.overlays _ rfl]
      obtain ⟨states, replies⟩ := ih below unseen
      rw [left_out]
      refine ⟨states, ?_⟩
      rw [userReplies, List.filter_cons_of_neg (by simpa using same), replies]

/-- Each user has the same overlays at the end, and is given the same replies, as if no calls were made but those of the
user. -/
theorem userReplies_isolated (r : Registry) (cs : List (UserId × Call)) (own : ∀ c ∈ cs, c.2.MadeFor (· = c.1))
    (user : UserId) :
    (r.afterAll cs).overlays user = (r.afterAll (ownedBy user cs)).overlays user ∧
      (r.userReplies cs).filter (·.1 = user) = r.userReplies (ownedBy user cs) := by
  have itself : r.Similar Eq (· = user) r := ⟨rfl, fun _ _ => rfl⟩
  obtain ⟨states, replies⟩ := isolated_of_similar own itself
  exact ⟨states.overlays user rfl, replies⟩

/-- Two users who have overlays of the same names. -/
private def neighbours : Registry where
  targets := ⟨[("app", ⟨∅⟩)], by simp⟩
  users := ⟨[(⟨0⟩, [⟨"mint", "app", none, .disabled, true, ⟨[("string/title", "Mint")], by simp⟩⟩]),
    (⟨10⟩, [⟨"mint", "app", none, .enabled, true, ⟨[("string/title", "Other")], by simp⟩⟩,
      ⟨"lime", "app", none, .disabled, true, ∅⟩])], by decide⟩

/-- Calls for both users in turn, one of which is refused because only the other user has the overlay. -/
private def inTurn : List (UserId × Call) :=
  [(⟨10⟩, .change (.setHighestPriority "mint") ⟨10⟩), (⟨0⟩, .change (.setEnabled "mint" true) ⟨0⟩),
    (⟨10⟩, .commit ⟨[⟨.ofType .setDisabled, "mint", ⟨10⟩, by decide⟩, ⟨.ofType .setEnabled, "lime", ⟨10⟩, by decide⟩]⟩),
    (⟨0⟩, .commit ⟨[⟨.ofType .setEnabled, "lime", ⟨0⟩, by decide⟩]⟩),
    (⟨0⟩, .lookup "app" ⟨"app", "string", "title"⟩ ⟨0⟩)]

theorem userReplies_isolated_in_turn :
    (∀ c ∈ inTurn, c.2.MadeFor (· = c.1)) ∧
      (neighbours.afterAll inTurn).overlays ⟨0⟩ =
        (neighbours.afterAll (ownedBy ⟨0⟩ inTurn)).overlays ⟨0⟩ ∧
      (neighbours.userReplies inTurn).filter (·.1 = ⟨0⟩) = neighbours.userReplies (ownedBy ⟨0⟩ inTurn) ∧
      neighbours.userReplies (ownedBy ⟨0⟩ inTurn) = [(⟨0⟩, .ok (.changed true)),
        (⟨0⟩, .error (.packageNotFound "lime" ⟨0⟩)),
        (⟨0⟩, .ok (.resolution ⟨"Mint", ["Resolution for app:string/title", "\tmint (overlay)"]⟩))] := by
  have own : ∀ c ∈ inTurn, c.2.MadeFor (· = c.1) := by
    simp [inTurn, Call.MadeFor]
  obtain ⟨states, replies⟩ := userReplies_isolated neighbours inTurn own ⟨0⟩
  exact ⟨own, states, replies, by decide +kernel⟩

end Overlays.Registry
