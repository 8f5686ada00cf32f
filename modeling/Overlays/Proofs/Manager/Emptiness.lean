import Overlays.Proofs.Manager.StateFile

set_option autoImplicit false
set_option relaxedAutoImplicit false

namespace Overlays

/-- Why a request is turned down where there are no overlays. -/
def Request.vainRefusal (q : Request) : Refusal :=
  if q.kind.known?.isSome then .packageNotFound q.package q.user else .unsupported q

namespace Call

/-- The answer to a call where there are neither targets nor overlays. -/
def vainReply : Call → Except ManagerError Reply
  | .all _ => .ok (.groups ∅)
  | .target .. => .ok (.infos [])
  | .info .. => .ok (.info none)
  | .change .. => .ok (.changed false)
  | .lookup loaded _ user => .error (.refused (.packageNotFound loaded user))
  | .commit ⟨[]⟩ => .ok .committed
  | .commit ⟨q :: _⟩ => .error (.refused q.vainRefusal)

end Call

namespace Registry

private theorem overlays_empty (user : UserId) : empty.overlays user = [] := rfl

private theorem change?_empty (c : Change) (user : UserId) : empty.change? user c = none := by
  rw [change?, overlays_empty, c.apply_nil, Option.map_none]

private theorem apply_empty (q : Request) : empty.apply q = .error q.vainRefusal := by
  rw [apply_error_iff, overlays_empty, Request.refusal?, Request.vainRefusal]
  cases q.kind.known? with
  | none => rfl
  | some type => rfl

private theorem commit_empty (q : Request) (qs : List Request) : empty.commit ⟨q :: qs⟩ = .error q.vainRefusal :=
  commit_error_iff.mpr ⟨[], q, qs, empty, rfl, rfl, apply_empty q⟩

end Registry

namespace Call

private theorem effect?_empty (c : Call) : c.effect? .empty = none := by
  cases c with
  | change change user => exact Registry.change?_empty change user
  | commit t =>
    obtain ⟨_ | ⟨q, qs⟩⟩ := t
    · exact effect?_commit_of_empty rfl
    · exact effect?_commit_of_error (Registry.commit_empty q qs)
  | all user => rfl
  | target name user => rfl
  | info package user => rfl
  | lookup loaded resource user => rfl

private theorem reply_empty (c : Call) : (c.reply .empty).mapError .refused = c.vainReply := by
  cases c with
  | change change user =>
    rw [reply, Registry.change?_empty]
    rfl
  | commit t =>
    obtain ⟨_ | ⟨q, qs⟩⟩ := t
    · rfl
    · rw [reply, Registry.commit_empty]
      rfl
  | all user => rfl
  | target name user => rfl
  | info package user => rfl
  | lookup loaded resource user => rfl

end Call

namespace Manager

variable {σ : Type} [FileStore σ] {path : String} {files : σ}

/-- There is no state file, or one that can be read and is blank. -/
def HoldsNothing (path : String) (files : σ) : Prop :=
  FileStore.contains files path = false ∨
    ∃ text, FileStore.read files path = .ok text ∧ Text.allBlank text = true

private theorem load_of_holdsNothing (nothing : HoldsNothing path files) : load path files = .ok .empty := by
  rw [load]
  rcases nothing with missing | ⟨text, present, blank⟩
  · rw [missing]
    rfl
  · split
    · rfl
    · rw [present]
      simp only [Registry.ofText?, if_pos blank]

private theorem run_of_holdsNothing (nothing : HoldsNothing path files) (c : Call) :
    run path c files = (c.vainReply, files) := by
  have loaded := load_of_holdsNothing nothing
  have written : ∀ r', c.effect? .empty = some r' →
      (FileStore.write files path r'.toText).1 = .ok () := by
    intro r' effect
    cases effect.symm.trans c.effect?_empty
  have reply : (run path c files).1 = c.vainReply := by
    rw [run_reply loaded c written, c.reply_empty]
  rcases quiet_or_stored path c files with quiet | ⟨r, r', stored⟩
  · exact Prod.ext reply quiet.files_eq
  · cases Except.ok.inj (stored.loaded.symm.trans loaded)
    cases stored.effect.symm.trans c.effect?_empty

private theorem runAll_of_nothing (nothing : HoldsNothing path files) (cs : List Call) :
    runAll path cs files = (cs.map Call.vainReply, files) := by
  induction cs with
  | nil => rfl
  | cons c cs ih =>
    rw [runAll, run_of_holdsNothing nothing c]
    simp only [ih, List.map_cons]

/-- Calls that start from nothing leave it at that: each is answered as if it were the first, and no attempt is made to
write. -/
theorem runAll_of_holdsNothing (nothing : HoldsNothing path files) (cs : List Call) :
    runAll path cs files = (cs.map Call.vainReply, files) ∧
      (runAll path cs (Journaled.start files)).2.attempts = [] := by
  have nothing' : HoldsNothing path (Journaled.start files) := nothing
  refine ⟨runAll_of_nothing nothing cs, ?_⟩
  rw [runAll_of_nothing nothing' cs, Journaled.start]

/-- A state file of nothing but white space, a no-break space among it. -/
private def blankFile : MemoryFiles where
  contents := ⟨[("state.yaml", "\n \u00a0\t")], by simp⟩
  readFaults := ∅
  writeFaults := ∅
  home := none
  settingsDirectory := none

/-- Calls of several kinds, transactions with a request, with one of no known kind, and with none among them. -/
private def vainCalls : List Call :=
  [.change (.setEnabled "hazy" true) ⟨0⟩, .all ⟨0⟩, .commit ⟨[⟨⟨0⟩, "hazy", ⟨10⟩, by decide⟩]⟩,
    .change (.setLowestPriority "hazy") ⟨0⟩, .commit ⟨[⟨⟨7⟩, "hazy", ⟨0⟩, by decide⟩]⟩, .commit ⟨[]⟩,
    .lookup "app" ⟨"app", "string", "title"⟩ ⟨0⟩, .info "hazy" ⟨10⟩]

theorem runAll_of_holdsNothing_but_blanks :
    HoldsNothing "state.yaml" blankFile ∧
      runAll "state.yaml" vainCalls blankFile =
        ([.ok (.changed false), .ok (.groups ∅), .error (.refused (.packageNotFound "hazy" ⟨10⟩)),
          .ok (.changed false), .error (.refused (.unsupported ⟨⟨7⟩, "hazy", ⟨0⟩, by decide⟩)), .ok .committed,
          .error (.refused (.packageNotFound "app" ⟨0⟩)), .ok (.info none)], blankFile) := by
  have nothing : HoldsNothing "state.yaml" blankFile := .inr ⟨"\n \u00a0\t", rfl, by decide⟩
  exact ⟨nothing, (runAll_of_holdsNothing nothing vainCalls).1⟩

end Manager

end Overlays
