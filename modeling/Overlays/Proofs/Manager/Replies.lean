import Overlays.Proofs.Manager.Runs
import Overlays.Proofs.Registry.Similarity

set_option autoImplicit false
set_option relaxedAutoImplicit false

namespace Overlays

open PriorityList

namespace Call

/-- The reply to a call, or the reason for which it is turned down. -/
def reply : Call → Registry → Except Refusal Reply
  | .all user, r => .ok (.groups (r.infosByTarget user))
  | .target name user, r => .ok (.infos (r.infosForTarget name user))
  | .info package user, r => .ok (.info (r.info? package user))
  | .change c user, r => .ok (.changed (r.change? user c).isSome)
  | .lookup loaded resource user, r => (r.lookup loaded resource user).map .resolution
  | .commit t, r => (r.commit t).map fun _ => .committed

/-- Whether a call is made for users of a kind; a transaction is if each of its requests is. -/
def MadeFor (users : UserId → Prop) : Call → Prop
  | .all user | .target _ user | .info _ user | .change _ user | .lookup _ _ user => users user
  | .commit t => ∀ q ∈ t.requests, users q.user

end Call

/-- The manager gives the reply of the registry that it has loaded, unless it fails to write what has become of it. -/
theorem Manager.run_reply {σ : Type} [FileStore σ] {path : String} {files : σ} {r : Registry}
    (loaded : load path files = .ok r) (c : Call)
    (written : ∀ r', c.effect? r = some r' → (FileStore.write files path r'.toText).1 = .ok ()) :
    (run path c files).1 = (c.reply r).mapError .refused := by
  cases c with
  | all user => simp only [run, infosByTarget, query, loaded]; rfl
  | target name user => simp only [run, infosForTarget, query, loaded]; rfl
  | info package user => simp only [run, info?, query, loaded]; rfl
  | lookup loading resource user =>
    simp only [run, lookup, loaded, Call.reply]
    change ((r.lookup loading resource user).mapError ManagerError.refused).map Reply.resolution = _
    cases r.lookup loading resource user with
    | error e => rfl
    | ok resolution => rfl
  | change change user =>
    cases made : r.change? user change with
    | none =>
      rw [run_change_of_refused loaded made, Call.reply, made]
      rfl
    | some r' =>
      rw [run_change_of_made loaded made, storing, written r' made, Call.reply, made]
      rfl
  | commit t =>
    cases made : r.commit t with
    | error e =>
      rw [run_commit_of_refused loaded made, Call.reply, made]
      rfl
    | ok r' =>
      cases nothing : t.isEmpty with
      | true =>
        rw [run_commit_of_empty loaded made nothing, Call.reply, made]
        rfl
      | false =>
        have effect := Call.effect?_commit_eq_some_iff.mpr ⟨nothing, made⟩
        rw [run_commit_of_made loaded made nothing, storing, written r' effect, Call.reply, made]
        rfl

namespace Registry

variable {r r' : Registry} {R : List Overlay → List Overlay → Prop} {users : UserId → Prop}

theorem Similar.reply_eq (similar : r.Similar R users r') (sim : IsSimulation R) {c : Call}
    (concerned : c.MadeFor users) : c.reply r' = c.reply r := by
  cases c with
  | all user => rw [Call.reply, Call.reply, similar.infosByTarget_eq sim concerned]
  | target name user => rw [Call.reply, Call.reply, similar.infosForTarget_eq sim concerned]
  | info package user => rw [Call.reply, Call.reply, similar.info?_eq sim concerned]
  | lookup loaded resource user => rw [Call.reply, Call.reply, similar.lookup_eq sim concerned]
  | change c user =>
    rw [Call.reply, Call.reply]
    cases made : r.change? user c with
    | none => rw [similar.change?_none sim concerned made]
    | some r₁ =>
      obtain ⟨r₁', made', -⟩ := similar.change? sim concerned made
      rw [made']
      rfl
  | commit t =>
    rw [Call.reply, Call.reply]
    rcases similar.commit sim concerned with ⟨r₁, r₁', made, made', -⟩ | ⟨e, refused, refused'⟩
    · rw [made, made']
      rfl
    · rw [refused, refused']

theorem Similar.next (similar : r.Similar R users r') (sim : IsSimulation R) {c : Call}
    (concerned : c.MadeFor users) : (c.next r).Similar R users (c.next r') := by
  cases c with
  | change c user =>
    cases made : r.change? user c with
    | none =>
      rw [Call.next_of_none (c := .change c user) made,
        Call.next_of_none (c := .change c user) (similar.change?_none sim concerned made)]
      exact similar
    | some r₁ =>
      obtain ⟨r₁', made', similar'⟩ := similar.change? sim concerned made
      rw [Call.next_of_some (c := .change c user) made, Call.next_of_some (c := .change c user) made']
      exact similar'
  | commit t =>
    rcases similar.commit sim concerned with ⟨r₁, r₁', made, made', similar'⟩ | ⟨e, refused, refused'⟩
    · cases nothing : t.isEmpty with
      | true =>
        rw [Call.next_of_none (Call.effect?_commit_of_empty nothing),
          Call.next_of_none (Call.effect?_commit_of_empty nothing)]
        exact similar
      | false =>
        rw [Call.next_of_some (Call.effect?_commit_eq_some_iff.mpr ⟨nothing, made⟩),
          Call.next_of_some (Call.effect?_commit_eq_some_iff.mpr ⟨nothing, made'⟩)]
        exact similar'
    · rw [Call.next_of_none (Call.effect?_commit_of_error refused),
        Call.next_of_none (Call.effect?_commit_of_error refused')]
      exact similar
  | all user => exact similar
  | target name user => exact similar
  | info package user => exact similar
  | lookup loaded resource user => exact similar

/-- The replies to calls that are made one after the other. -/
def replies : Registry → List Call → List (Except Refusal Reply)
  | _, [] => []
  | r, c :: cs => c.reply r :: (c.next r).replies cs

end Registry

end Overlays
