import Mathlib.Data.List.Basic
import Overlays.Files.Memory
import Overlays.Manager
import Overlays.Proofs.Registry.Commit

/-!
A call of the manager either leaves the state file alone or writes it once, with the registry after all that was asked
for. To speak about how often it is written, files are kept together with a journal of every attempt to write.
-/

set_option autoImplicit false
set_option relaxedAutoImplicit false

namespace Overlays

variable {σ : Type} [FileStore σ]

/-- Files, and every attempt to write one: its path and the text. -/
structure Journaled (σ : Type) where
  files : σ
  attempts : List (String × String)

/-- Files with nothing in the journal. -/
def Journaled.start (files : σ) : Journaled σ := ⟨files, []⟩

instance : FileStore (Journaled σ) where
  read j path := FileStore.read j.files path
  write j path text :=
    ((FileStore.write j.files path text).1,
      ⟨(FileStore.write j.files path text).2, j.attempts ++ [(path, text)]⟩)
  contains j path := FileStore.contains j.files path
  home j := FileStore.home j.files
  settingsDirectory j := FileStore.settingsDirectory j.files

namespace Call

/-- Whether a call only asks. -/
def isQuery : Call → Bool
  | .all _ | .target .. | .info .. | .lookup .. => true
  | .change .. | .commit _ => false

/-- The registry after all that a call asks to be changed, if it can be changed so and there is anything to change. -/
def effect? : Call → Registry → Option Registry
  | .change c user, r => r.change? user c
  | .commit t, r => if t.isEmpty then none else (r.commit t).toOption
  | _, _ => none

end Call

namespace Manager

variable {path : String} {c : Call} {files : σ}

/-- A call that does not touch the files and reports no change to them. -/
structure Quiet (c : Call) (files : σ) (out : Except ManagerError Reply × σ) : Prop where
  files_eq : out.2 = files
  not_changed : out.1 ≠ .ok (.changed true)
  not_committed : out.1 = .ok .committed → c = .commit ⟨[]⟩

/-- A call that writes what it has made of the registry it has loaded, and reports how that went. -/
structure Stored (path : String) (c : Call) (files : σ) (out : Except ManagerError Reply × σ)
    (r r' : Registry) : Prop where
  loaded : load path files = .ok r
  effect : c.effect? r = some r'
  files_eq : out.2 = (FileStore.write files path r'.toText).2
  failed : ∀ cause, (FileStore.write files path r'.toText).1 = .error cause →
    out.1 = .error (.writeFailed path cause)
  done : (FileStore.write files path r'.toText).1 = .ok () →
    out.1 = .ok (.changed true) ∨ out.1 = .ok .committed ∧ c ≠ .commit ⟨[]⟩

/-- The end of a call that stores a registry, with a reply for when that goes well. -/
def storing (path : String) (r : Registry) (reply : Reply) (files : σ) : Except ManagerError Reply × σ :=
  (((FileStore.write files path r.toText).1.mapError (.writeFailed path)).map fun _ => reply,
    (FileStore.write files path r.toText).2)

theorem store_eq (path : String) (r : Registry) (files : σ) :
    store path r files = ((FileStore.write files path r.toText).1.mapError (.writeFailed path),
      (FileStore.write files path r.toText).2) := by
  rw [store]
  rcases FileStore.write files path r.toText with ⟨_ | _, after⟩
  · rfl
  · rfl

section Steps

variable {r r' : Registry} {change : Change} {user : UserId} {t : Transaction}

private theorem run_change_of_unloaded {e : ManagerError} (failed : load path files = .error e) :
    run path (.change change user) files = (.error e, files) := by
  rw [run, Manager.change, failed]
  rfl

theorem run_change_of_refused (loaded : load path files = .ok r) (refused : r.change? user change = none) :
    run path (.change change user) files = (.ok (.changed false), files) := by
  rw [run, Manager.change, loaded]
  simp only [refused]
  rfl

theorem run_change_of_made (loaded : load path files = .ok r) (made : r.change? user change = some r') :
    run path (.change change user) files = storing path r' (.changed true) files := by
  rw [run, Manager.change, loaded]
  simp only [made, store_eq, storing]
  rcases (FileStore.write files path r'.toText).1 with _ | _
  · rfl
  · rfl

private theorem run_commit_of_unloaded {e : ManagerError} (failed : load path files = .error e) :
    run path (.commit t) files = (.error e, files) := by
  rw [run, Manager.commit, failed]
  rfl

theorem run_commit_of_refused {e : Refusal} (loaded : load path files = .ok r)
    (refused : r.commit t = .error e) : run path (.commit t) files = (.error (.refused e), files) := by
  rw [run, Manager.commit, loaded]
  simp only [refused]
  rfl

theorem run_commit_of_empty (loaded : load path files = .ok r) (made : r.commit t = .ok r')
    (nothing : t.isEmpty = true) : run path (.commit t) files = (.ok .committed, files) := by
  rw [run, Manager.commit, loaded]
  simp only [made, nothing, if_true]
  rfl

theorem run_commit_of_made (loaded : load path files = .ok r) (made : r.commit t = .ok r')
    (something : t.isEmpty = false) : run path (.commit t) files = storing path r' .committed files := by
  rw [run, Manager.commit, loaded]
  simp only [made, something, store_eq]
  rfl

end Steps

omit [FileStore σ] in
private theorem quiet_of_error (e : ManagerError) : Quiet c files (.error e, files) := by
  refine ⟨rfl, ?_, ?_⟩
  · intro h
    cases h
  · intro h
    cases h

omit [FileStore σ] in
private theorem quiet_of_unchanged : Quiet c files (.ok (.changed false), files) := by
  refine ⟨rfl, ?_, ?_⟩
  · intro h
    cases h
  · intro h
    cases h

omit [FileStore σ] in
private theorem quiet_of_query {α : Type} (f : α → Reply) (changed : ∀ a, f a ≠ .changed true)
    (committed : ∀ a, f a ≠ .committed) (x : Except ManagerError α) : Quiet c files (x.map f, files) := by
  cases x with
  | error e => exact quiet_of_error e
  | ok a =>
    refine ⟨rfl, ?_, ?_⟩
    · intro h
      exact changed a (Except.ok.inj h)
    · intro h
      exact absurd (Except.ok.inj h) (committed a)

private theorem stored_of_storing {r r' : Registry} {reply : Reply} (loaded : load path files = .ok r)
    (effect : c.effect? r = some r')
    (good : reply = .changed true ∨ reply = .committed ∧ c ≠ .commit ⟨[]⟩) :
    Stored path c files (storing path r' reply files) r r' := by
  refine ⟨loaded, effect, rfl, ?_, ?_⟩
  · intro cause failed
    simp only [storing, failed]
    rfl
  · intro done
    simp only [storing, done]
    rcases good with rfl | ⟨rfl, nonempty⟩
    · exact .inl rfl
    · exact .inr ⟨rfl, nonempty⟩

private theorem quiet_or_stored_of_change (path : String) (change : Change) (user : UserId) (files : σ) :
    Quiet (.change change user) files (run path (.change change user) files) ∨
      ∃ r r', Stored path (.change change user) files (run path (.change change user) files) r r' := by
  cases loaded : load path files with
  | error e =>
    rw [run_change_of_unloaded loaded]
    exact .inl (quiet_of_error e)
  | ok r =>
    cases made : r.change? user change with
    | none =>
      rw [run_change_of_refused loaded made]
      exact .inl quiet_of_unchanged
    | some r' =>
      rw [run_change_of_made loaded made]
      exact .inr ⟨r, r', stored_of_storing loaded made (.inl rfl)⟩

private theorem quiet_or_stored_of_commit (path : String) (t : Transaction) (files : σ) :
    Quiet (.commit t) files (run path (.commit t) files) ∨
      ∃ r r', Stored path (.commit t) files (run path (.commit t) files) r r' := by
  cases loaded : load path files with
  | error e =>
    rw [run_commit_of_unloaded loaded]
    exact .inl (quiet_of_error e)
  | ok r =>
    cases made : r.commit t with
    | error e =>
      rw [run_commit_of_refused loaded made]
      exact .inl (quiet_of_error (.refused e))
    | ok r' =>
      cases nothing : t.isEmpty with
      | true =>
        rw [run_commit_of_empty loaded made nothing]
        have empty : t = ⟨[]⟩ := Transaction.ext (List.isEmpty_iff.mp nothing)
        refine .inl ⟨rfl, ?_, fun _ => congrArg Call.commit empty⟩
        intro h
        cases h
      | false =>
        have nonempty : Call.commit t ≠ .commit ⟨[]⟩ := by
          intro h
          obtain ⟨⟩ := h
          cases nothing
        have effect : (Call.commit t).effect? r = some r' := by
          simp only [Call.effect?, nothing, made]
          rfl
        rw [run_commit_of_made loaded made nothing]
        exact .inr ⟨r, r', stored_of_storing loaded effect (.inr ⟨rfl, nonempty⟩)⟩

theorem quiet_or_stored (path : String) (c : Call) (files : σ) :
    Quiet c files (run path c files) ∨ ∃ r r', Stored path c files (run path c files) r r' := by
  cases c with
  | all user => exact .inl (quiet_of_query _ (by simp) (by simp) _)
  | target name user => exact .inl (quiet_of_query _ (by simp) (by simp) _)
  | info package user => exact .inl (quiet_of_query _ (by simp) (by simp) _)
  | lookup loaded resource user => exact .inl (quiet_of_query _ (by simp) (by simp) _)
  | change change user => exact quiet_or_stored_of_change path change user files
  | commit t => exact quiet_or_stored_of_commit path t files

end Manager

end Overlays
