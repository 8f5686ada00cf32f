import Overlays.Files.Memory
import Overlays.Proofs.Manager.Replies
import Overlays.Proofs.Registry.Document
import Overlays.Proofs.SortedMap

set_option autoImplicit false
set_option relaxedAutoImplicit false

namespace Overlays

namespace Manager

variable {σ : Type} [FileStore σ] {path text : String} {files files' : σ} {r : Registry}

/-- A text is found and read under a path. -/
structure Holds (path text : String) (files : σ) : Prop where
  contains : FileStore.contains files path = true
  read : FileStore.read files path = .ok text

/-- A text that is put under a path without an error is held there. -/
def ReadsBack (path : String) (files : σ) : Prop :=
  ∀ (text : String) (files' : σ), FileStore.write files path text = (.ok (), files') → Holds path text files'

theorem load_of_holds (held : Holds path r.toText files) : load path files = .ok r := by
  have there : (!FileStore.contains files path) = false := by rw [held.contains, Bool.not_true]
  rw [load, there, if_neg Bool.false_ne_true, held.read]
  simp only [Registry.ofText?_toText]

private theorem write_of_store (stored : store path r files = (.ok (), files')) :
    FileStore.write files path r.toText = (.ok (), files') := by
  rw [store_eq] at stored
  obtain ⟨result, left⟩ := Prod.mk.inj stored
  cases written : (FileStore.write files path r.toText).1 with
  | error cause =>
    rw [written] at result
    cases result
  | ok _ => exact Prod.ext written left

end Manager

theorem MemoryFiles.write_of_fault {m : MemoryFiles} {path reason : String}
    (fault : m.writeFaults.get? path = some reason)
    (text : String) : FileStore.write m path text = (.error (.system reason), m) := by
  change m.write path text = _
  rw [MemoryFiles.write, fault]

theorem MemoryFiles.write_of_faultless {m : MemoryFiles} {path : String} (faultless : m.writeFaults.get? path = none)
    (text : String) :
    FileStore.write m path text = (.ok (), { m with contents := m.contents.insert path text }) := by
  change m.write path text = _
  rw [MemoryFiles.write, faultless]

private theorem MemoryFiles.write_eq_ok {m : MemoryFiles} {path text : String} {files' : MemoryFiles}
    (written : FileStore.write m path text = (.ok (), files')) :
    files' = { m with contents := m.contents.insert path text } := by
  cases fault : m.writeFaults.get? path with
  | some reason =>
    rw [MemoryFiles.write_of_fault fault] at written
    cases written
  | none =>
    rw [MemoryFiles.write_of_faultless fault] at written
    exact (Prod.mk.inj written).2.symm

theorem MemoryFiles.holds_insert {m : MemoryFiles} {path : String} (readable : m.readFaults.get? path = none)
    (text : String) : Manager.Holds path text { m with contents := m.contents.insert path text } := by
  have there : (m.contents.insert path text).get? path = some text := by
    rw [SortedMap.get?_insert, if_pos rfl]
  refine ⟨?_, ?_⟩
  · change MemoryFiles.contains _ path = true
    simp only [MemoryFiles.contains, SortedMap.contains, there, Option.isSome_some, Bool.true_or]
  · change MemoryFiles.read _ path = .ok text
    rw [MemoryFiles.read, readable, there]

private theorem MemoryFiles.readsBack {m : MemoryFiles} {path : String} (readable : m.readFaults.get? path = none) :
    Manager.ReadsBack path m := by
  intro text files' written
  rw [MemoryFiles.write_eq_ok written]
  exact MemoryFiles.holds_insert readable text

/-- A registry that is stored is loaded as it was, whatever its texts, users and resources are; and to store what a file
holds and to load it again changes nothing. -/
theorem Registry.state_file_round_trip (r : Registry) :
    ofText? r.toText = some r ∧
      ∀ {σ : Type} [FileStore σ] {path : String} {files files' : σ},
        Manager.ReadsBack path files → Manager.store path r files = (.ok (), files') →
          Manager.load path files' = .ok r ∧
            (Manager.load path files = .ok r → Manager.load path files' = Manager.load path files) := by
  refine ⟨ofText?_toText r, ?_⟩
  intro σ _ path files files' durable stored
  have again : Manager.load path files' = .ok r :=
    Manager.load_of_holds (durable r.toText files' (Manager.write_of_store stored))
  refine ⟨again, ?_⟩
  intro loaded
  rw [again, loaded]

/-- Texts that mean something else where they stand plainly, one of several lines and one with a control character; a
target without resources and a user without overlays. -/
private def oddities : Registry where
  targets := .ofList [("", ⟨∅⟩), ("1e3", ⟨.ofList [("null", "two\n lines\n\n"), ("~", "\x07: #")]⟩)]
  users := .ofList [(⟨-2147483648⟩, []), (⟨0⟩, [⟨"true", "", some "null", .missingTarget, false, ∅⟩])]

private def odditiesText : String :=
  "targets:\n  '': \x7b\x7d\n  '1e3':\n    resources:\n      'null': |+\n        two\n         lines\n\n      '~': \"\\a: #\"\n"
    ++ "users:\n  -2147483648: []\n  0:\n  - name: 'true'\n    target: ''\n    category: 'null'\n"
    ++ "    state: missing_target\n    mutable: false\n"

private def noFiles : MemoryFiles := ⟨∅, ∅, ∅, none, none⟩

private def odditiesFile : MemoryFiles := { noFiles with contents := ⟨[("state.yaml", odditiesText)], by simp⟩ }

theorem Registry.state_file_round_trip_of_oddities :
    Manager.ReadsBack "state.yaml" noFiles ∧
      Manager.store "state.yaml" oddities noFiles = (.ok (), odditiesFile) ∧
      Manager.load "state.yaml" odditiesFile = .ok oddities := by
  have durable : Manager.ReadsBack "state.yaml" noFiles := MemoryFiles.readsBack rfl
  have written : oddities.toText = odditiesText := by decide +kernel
  have stored : Manager.store "state.yaml" oddities noFiles = (.ok (), odditiesFile) := by
    rw [Manager.store, written]
    rfl
  exact ⟨durable, stored, ((state_file_round_trip oddities).2 durable stored).1⟩

namespace Manager

variable {σ : Type} [FileStore σ] {path : String} {files : σ} {r : Registry} {sound : σ → Prop}

/-- Files of a kind always take a text under a path, hold it there, and are still of that kind. -/
structure Keeps (path : String) (sound : σ → Prop) : Prop where
  written : ∀ files text, sound files → (FileStore.write files path text).1 = .ok ()
  kept : ∀ files text, sound files → sound (FileStore.write files path text).2
  held : ∀ files text, sound files → Holds path text (FileStore.write files path text).2

/-- Makes calls one after the other. -/
def runAll (path : String) : List Call → σ → List (Except ManagerError Reply) × σ
  | [], files => ([], files)
  | c :: cs, files =>
    let (reply, files) := run path c files
    let (replies, files) := runAll path cs files
    (reply :: replies, files)

private theorem load_run (keeps : Keeps path sound) (reliable : sound files) (loaded : load path files = .ok r)
    (c : Call) : sound (run path c files).2 ∧ load path (run path c files).2 = .ok (c.next r) := by
  rcases run_files loaded c with ⟨untouched, same⟩ | after
  · rw [untouched, same]
    exact ⟨reliable, loaded⟩
  · rw [after]
    exact ⟨keeps.kept files _ reliable, load_of_holds (keeps.held files _ reliable)⟩

/-- The manager, which goes through the state file with every call, replies what the registry does in memory, and leaves
in the file what becomes of it. -/
theorem runAll_eq (keeps : Keeps path sound) (reliable : sound files) (loaded : load path files = .ok r)
    (cs : List Call) :
    (runAll path cs files).1 = (r.replies cs).map (·.mapError .refused) ∧
      load path (runAll path cs files).2 = .ok (r.after cs) := by
  induction cs generalizing files r with
  | nil => exact ⟨rfl, loaded⟩
  | cons c cs ih =>
    have reply : (run path c files).1 = (c.reply r).mapError .refused :=
      run_reply loaded c fun r' _ => keeps.written files r'.toText reliable
    obtain ⟨reliable', loaded'⟩ := load_run keeps reliable loaded c
    obtain ⟨replies, after⟩ := ih reliable' loaded'
    refine ⟨?_, after⟩
    change (run path c files).1 :: (runAll path cs (run path c files).2).1 = _
    rw [reply, replies]
    rfl

end Manager

/-- Files in memory for which nothing goes wrong under a path. -/
def MemoryFiles.Faultless (path : String) (m : MemoryFiles) : Prop :=
  m.readFaults.get? path = none ∧ m.writeFaults.get? path = none

theorem MemoryFiles.keeps_faultless (path : String) : Manager.Keeps path (MemoryFiles.Faultless path) where
  written m text faultless := by
    change (m.write path text).1 = .ok ()
    rw [MemoryFiles.write, faultless.2]
  kept m text faultless := by
    change MemoryFiles.Faultless path (m.write path text).2
    rw [MemoryFiles.write, faultless.2]
    exact faultless
  held m text faultless := by
    change Manager.Holds path text (m.write path text).2
    rw [MemoryFiles.write, faultless.2]
    exact MemoryFiles.holds_insert faultless.1 text

end Overlays
