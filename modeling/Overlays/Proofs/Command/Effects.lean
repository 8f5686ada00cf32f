import Overlays.Command.Run
import Overlays.Proofs.Manager.StateFile

set_option autoImplicit false
set_option relaxedAutoImplicit false

namespace Overlays

private theorem ExitStatus.code_cases (s : ExitStatus) : s.code = 0 ∨ s.code = 1 ∨ s.code = -1 := by
  cases s with
  | success => exact .inl rfl
  | failure => exact .inr (.inl rfl)
  | managerFailure => exact .inr (.inr rfl)

private theorem ExitStatus.code_eq_zero_iff {s : ExitStatus} : s.code = 0 ↔ s = .success := by
  cases s with
  | success => decide
  | failure => decide
  | managerFailure => decide

namespace Outcome

/-- Whether nothing is printed unless the end is good. -/
def IsTidy (o : Outcome) : Prop := o.exit ≠ .success → o.output = ""

private theorem bad_of_managerError (e : ManagerError) :
    (ofManagerError e).exit ≠ .success ∧ (ofManagerError e).output = "" := by
  cases e with
  | readFailed path cause => simp [ofManagerError, ManagerError.remoteReason?]
  | parseFailed path => simp [ofManagerError, ManagerError.remoteReason?]
  | writeFailed path cause => simp [ofManagerError, ManagerError.remoteReason?]
  | refused cause =>
    cases faulty : cause.fault? with
    | none => simp [ofManagerError, ManagerError.remoteReason?, faulty, failed]
    | some fault => simp [ofManagerError, ManagerError.remoteReason?, faulty]

private theorem isTidy_of_output {o : Outcome} (h : o.output = "") : o.IsTidy := fun _ => h

private theorem isTidy_print (fault : Option String) (text : String) : (print fault text).IsTidy := by
  cases fault with
  | none =>
    intro bad
    exact absurd rfl bad
  | some reason => exact isTidy_of_output rfl

private theorem IsTidy.after {o : Outcome} (h : o.IsTidy) (messages : List Message) : (o.after messages).IsTidy := h

end Outcome

/-- Whether the manager reports that a change was made, or that a transaction was carried out. -/
def Manager.IsDone (result : Except ManagerError Reply) : Prop :=
  result = .ok (.changed true) ∨ result = .ok .committed

namespace Command

variable {σ : Type} [FileStore σ] {path : String} {c : Command} {call : Call} {user : UserId} {files : σ}

/-- Whether a command only asks. -/
def isQuery : Command → Bool
  | .list _ | .lookup .. => true
  | .setEnabled .. | .enableExclusive .. | .setPriority .. | .commit _ => false

/-- The call of the manager by which a command is to change something. A commit makes none if its operations do not make
up a transaction. -/
def call? (user : UserId) : Command → Option Call
  | .list _ | .lookup .. => none
  | .setEnabled enable package => some (.change (.setEnabled package enable) user)
  | .enableExclusive inCategory package =>
    some (.change (if inCategory then .setEnabledExclusiveInCategory package
      else .setEnabledExclusive package true) user)
  | .setPriority package placement => some (.change (placing package placement) user)
  | .commit operations => (transaction operations user).toOption.map .commit

/-- A command that shows no more than how its call went: it prints nothing, ends well exactly if the call did, and leaves
the files as the call does. -/
structure Shows (out : Outcome × σ) (answer : Except ManagerError Reply × σ) : Prop where
  files_eq : out.2 = answer.2
  output_eq : out.1.output = ""
  success_iff : out.1.exit = .success ↔ Manager.IsDone answer.1

omit [FileStore σ] in
private theorem shows_error (e : ManagerError) (files : σ) :
    Shows (Outcome.ofManagerError e, files) (.error e, files) := by
  obtain ⟨bad, nothing⟩ := Outcome.bad_of_managerError e
  refine ⟨rfl, nothing, iff_of_false bad ?_⟩
  rintro (done | done)
  · cases done
  · cases done

private theorem shows_runChange (path : String) (change : Change) (user : UserId) (done : List Message)
    (undone : String) (files : σ) : Shows (runChange path change user done undone files)
      (Manager.run path (.change change user) files) := by
  rw [runChange, Manager.run]
  obtain ⟨result, after⟩ := Manager.change path change user files
  cases result with
  | error e => exact shows_error e after
  | ok made =>
    cases made with
    | true => exact ⟨rfl, rfl, iff_of_true rfl (.inl rfl)⟩
    | false =>
      refine ⟨rfl, rfl, iff_of_false ?_ ?_⟩
      · simp [changeOutcome, Outcome.failed]
      · rintro (done | done)
        · cases done
        · cases done

private theorem shows_runCommit {operations : List CommitOperation} {t : Transaction}
    (together : transaction operations user = .ok t) (path : String) (files : σ) :
    Shows (runCommit path operations user files) (Manager.run path (.commit t) files) := by
  rw [runCommit, together, Manager.run]
  dsimp only
  obtain ⟨result, after⟩ := Manager.commit path t files
  cases result with
  | error e => exact shows_error e after
  | ok done => exact ⟨rfl, rfl, iff_of_true rfl (.inr rfl)⟩

private theorem shows_of_call? (h : c.call? user = some call) (path : String) (fault : Option String) (files : σ) :
    Shows (c.run path user fault files) (Manager.run path call files) := by
  cases c with
  | list package => cases h
  | lookup isVerbose loaded resource => cases h
  | setEnabled enable package =>
    cases h
    exact shows_runChange ..
  | enableExclusive inCategory package =>
    cases h
    exact shows_runChange ..
  | setPriority package placement =>
    cases h
    exact shows_runChange ..
  | commit operations =>
    rw [call?] at h
    cases together : transaction operations user with
    | error e =>
      rw [together] at h
      cases h
    | ok t =>
      rw [together] at h
      cases h
      exact shows_runCommit together path files

private theorem isTidy_runList (path : String) (package : Option String) (user : UserId) (fault : Option String)
    (files : σ) : (runList path package user fault files).IsTidy := by
  cases package with
  | none =>
    rw [runList]
    split
    · exact Outcome.isTidy_of_output (Outcome.bad_of_managerError _).2
    · exact (Outcome.isTidy_print fault _).after _
  | some name =>
    rw [runList]
    split
    · exact Outcome.isTidy_of_output (Outcome.bad_of_managerError _).2
    · exact Outcome.isTidy_print fault _

private theorem isTidy_runLookup (path : String) (isVerbose : Bool) (loaded resource : String) (user : UserId)
    (fault : Option String) (files : σ) : (runLookup path isVerbose loaded resource user fault files).IsTidy := by
  rw [runLookup]
  split
  · exact Outcome.isTidy_of_output rfl
  · split
    · exact Outcome.isTidy_print fault _
    · exact Outcome.isTidy_of_output rfl
    · exact Outcome.isTidy_of_output rfl
    · exact Outcome.isTidy_of_output (Outcome.bad_of_managerError _).2

private theorem run_of_call?_eq_none (h : c.call? user = none) (path : String) (fault : Option String) (files : σ) :
    (c.run path user fault files).2 = files ∧ (c.run path user fault files).1.IsTidy ∧
      (c.isQuery = false → (c.run path user fault files).1.exit ≠ .success) := by
  cases c with
  | list package =>
    refine ⟨rfl, isTidy_runList path package user fault files, ?_⟩
    intro changing
    cases changing
  | lookup isVerbose loaded resource =>
    refine ⟨rfl, isTidy_runLookup path isVerbose loaded resource user fault files, ?_⟩
    intro changing
    cases changing
  | setEnabled enable package => cases h
  | enableExclusive inCategory package => cases h
  | setPriority package placement => cases h
  | commit operations =>
    rw [call?] at h
    cases together : transaction operations user with
    | ok t =>
      rw [together] at h
      cases h
    | error e =>
      obtain ⟨o, e⟩ := e
      rw [run, runCommit, together]
      exact ⟨rfl, Outcome.isTidy_of_output rfl, fun _ => by simp [Outcome.failed]⟩

private theorem isQuery_eq_false_of_call? (h : c.call? user = some call) : c.isQuery = false := by
  cases c with
  | list package => cases h
  | lookup isVerbose loaded resource => cases h
  | setEnabled enable package => rfl
  | enableExclusive inCategory package => rfl
  | setPriority package placement => rfl
  | commit operations => rfl

end Command

namespace Manager

private theorem run_memory (path : String) (call : Call) (files : MemoryFiles) :
    (run path call files).2 = files ∧ (IsDone (run path call files).1 → call = .commit ⟨[]⟩) ∨
      ∃ r r', load path files = .ok r ∧ call.effect? r = some r' ∧ IsDone (run path call files).1 ∧
        (run path call files).2 = { files with contents := files.contents.insert path r'.toText } := by
  rcases quiet_or_stored path call files with quiet | ⟨r, r', stored⟩
  · refine .inl ⟨quiet.files_eq, ?_⟩
    rintro (changed | committed)
    · exact absurd changed quiet.not_changed
    · exact quiet.not_committed committed
  · rw [stored.files_eq]
    cases fault : files.writeFaults.get? path with
    | some reason =>
      have refused := MemoryFiles.write_of_fault fault r'.toText
      refine .inl ⟨by rw [refused], ?_⟩
      rw [stored.failed _ (by rw [refused])]
      rintro (done | done)
      · cases done
      · cases done
    | none =>
      have taken := MemoryFiles.write_of_faultless fault r'.toText
      refine .inr ⟨r, r', stored.loaded, stored.effect, ?_, by rw [taken]⟩
      exact (stored.done (by rw [taken])).imp_right And.left

end Manager

/-- What a command can do to files in memory and to the standard output, as against the exit status that it ends with. -/
structure Effects (path : String) (c : Command) (user : UserId) (files : MemoryFiles) (status : Int) (output : String)
    (after : MemoryFiles) : Prop where
  status_cases : status = 0 ∨ status = 1 ∨ status = -1
  /-- Nothing but the contents of files can change. -/
  surroundings : after = { files with contents := after.contents }
  elsewhere : ∀ other, other ≠ path → after.contents.get? other = files.contents.get? other
  changed : after ≠ files → c.isQuery = false ∧ status = 0
  printed : output ≠ "" → c.isQuery = true ∧ status = 0
  /-- A good end of a call that asks for anything means that the state file holds what was asked for. -/
  stored : ∀ call, c.call? user = some call → call ≠ .commit ⟨[]⟩ → status = 0 →
    ∃ r r', Manager.load path files = .ok r ∧ call.effect? r = some r' ∧
      after.contents.get? path = some r'.toText

namespace Command

private theorem effects_of_call? {c : Command} {user : UserId} {call : Call} (h : c.call? user = some call)
    (path : String) (fault : Option String) (files : MemoryFiles) :
    Effects path c user files (c.run path user fault files).1.exit.code (c.run path user fault files).1.output
      (c.run path user fault files).2 := by
  have shows := shows_of_call? h path fault files
  have changing := isQuery_eq_false_of_call? h
  have good : (c.run path user fault files).1.exit.code = 0 ↔ Manager.IsDone (Manager.run path call files).1 :=
    ExitStatus.code_eq_zero_iff.trans shows.success_iff
  have silent : (c.run path user fault files).1.output ≠ "" →
      c.isQuery = true ∧ (c.run path user fault files).1.exit.code = 0 :=
    fun printed => absurd shows.output_eq printed
  have left := shows.files_eq
  rcases Manager.run_memory path call files with ⟨untouched, empty⟩ | ⟨r, r', loaded, effect, done, written⟩
  · rw [untouched] at left
    refine ⟨ExitStatus.code_cases _, by rw [left], fun _ _ => by rw [left], ?_, silent, ?_⟩
    · intro changed
      exact absurd left changed
    · intro call' h' asks ended
      cases h.symm.trans h'
      exact absurd (empty (good.mp ended)) asks
  · rw [written] at left
    have get? (other : String) : (c.run path user fault files).2.contents.get? other =
        if other = path then some r'.toText else files.contents.get? other := by
      rw [left, SortedMap.get?_insert]
    refine ⟨ExitStatus.code_cases _, by rw [left], ?_, ?_, silent, ?_⟩
    · intro other elsewhere
      rw [get?, if_neg elsewhere]
    · intro _
      exact ⟨changing, good.mpr done⟩
    · intro call' h' _ _
      cases h.symm.trans h'
      exact ⟨r, r', loaded, effect, by rw [get?, if_pos rfl]⟩

theorem run_effects (path : String) (c : Command) (user : UserId) (fault : Option String) (files : MemoryFiles) :
    Effects path c user files (c.run path user fault files).1.exit.code (c.run path user fault files).1.output
      (c.run path user fault files).2 := by
  cases h : c.call? user with
  | some call => exact effects_of_call? h path fault files
  | none =>
    obtain ⟨untouched, tidy, bad⟩ := run_of_call?_eq_none h path fault files
    refine ⟨ExitStatus.code_cases _, by rw [untouched], fun _ _ => by rw [untouched], ?_, ?_, ?_⟩
    · intro changed
      exact absurd untouched changed
    · intro printed
      have ended : (c.run path user fault files).1.exit = .success := by
        by_contra failed
        exact printed (tidy failed)
      refine ⟨?_, ExitStatus.code_eq_zero_iff.mpr ended⟩
      by_contra changing
      exact bad (Bool.eq_false_iff.mpr changing) ended
    · intro call h'
      cases h.symm.trans h'

end Command

end Overlays
