import Overlays.Proofs.Checked
import Overlays.Proofs.Command.Effects
import Overlays.Session

set_option autoImplicit false
set_option relaxedAutoImplicit false

namespace Overlays

open Checked

namespace Settings

variable {σ : Type}

private theorem load_ok_iff [FileStore σ] {files : σ} {s : Settings} :
    load files = .ok s ↔ ∃ file text written path, find files = .ok [file] ∧ FileStore.read files file = .ok text ∧
      ofText text = .ok written ∧ expandTilde (FileStore.home files) written.stateFile = .ok path ∧
      s = { written with stateFile := path } := by
  rw [load]
  split
  · next missing =>
    rw [missing]
    exact iff_of_false nofun nofun
  · next file found =>
    simp only [found, bind_ok_iff, mapError_ok_iff, Except.ok.injEq, List.cons.injEq, and_true, eq_comm (a := file)]
    constructor
    · rintro ⟨text, read, written, parsed, path, expanded, h⟩
      cases h
      exact ⟨file, text, written, path, rfl, read, parsed, expanded, rfl⟩
    · rintro ⟨_, text, written, path, rfl, read, parsed, expanded, rfl⟩
      exact ⟨text, read, written, parsed, path, expanded, rfl⟩
  · next several found =>
    rw [found]
    refine iff_of_false nofun ?_
    rintro ⟨file, _, _, _, h, _⟩
    cases h
    exact several file rfl

end Settings

namespace Invocation

variable {σ : Type} [FileStore σ]

/-- The state file that is in force for a run: the one that the command line names, or else the one of the only settings
file, whose leading tilde stands for the home directory. -/
inductive InForce (i : Invocation) (files : σ) : String → Prop where
  | named {path : String} : i.stateFile = some path → InForce i files path
  | configured {file text path : String} {s : Settings} : i.stateFile = none → Settings.find files = .ok [file] →
    FileStore.read files file = .ok text → Settings.ofText text = .ok s →
    expandTilde (FileStore.home files) s.stateFile = .ok path → InForce i files path

private theorem inForce_of_settings {i : Invocation} {files : σ} {s : Settings} (h : i.settings files = .ok s) :
    i.InForce files s.stateFile := by
  cases named : i.stateFile with
  | some path =>
    have path_eq : s.stateFile = path := by
      rw [settings] at h
      split at h
      · cases h
        rw [override, named, Option.getD_some]
      · split at h
        · cases h
          rw [override, named, Option.getD_some]
        · cases h
      · cases h
    rw [path_eq]
    exact .named named
  | none =>
    rw [settings, named] at h
    split at h
    · next loaded =>
      obtain ⟨file, text, written, path, found, read, parsed, expanded, rfl⟩ := Settings.load_ok_iff.mp loaded
      cases h
      rw [override, named, Option.getD_none]
      exact .configured named found read parsed expanded
    · cases h
    · cases h

/-- Whatever the command line asks for and whatever goes wrong, the run does not start for want of settings, and then it
ends badly, prints nothing and leaves all files alone; or its command is carried out on the state file in force. -/
theorem report_effects (i : Invocation) (terminal : Terminal) (fault : Option String) (files : MemoryFiles) :
    (∃ e, i.settings files = .error e ∧ i.report terminal fault files = (⟨1, "", [startFailure e]⟩, files)) ∨
      ∃ s report after, i.settings files = .ok s ∧ i.InForce files s.stateFile ∧
        i.report terminal fault files = (report, after) ∧
        Effects s.stateFile i.command (i.forUser s) files report.status report.output after := by
  cases h : i.settings files with
  | error e =>
    refine .inl ⟨e, rfl, ?_⟩
    rw [report, run, h]
  | ok s =>
    refine .inr ⟨s, _, _, rfl, inForce_of_settings h, Prod.mk.eta.symm, ?_⟩
    rw [report, run, h]
    exact Command.run_effects s.stateFile i.command (i.forUser s) fault files

end Invocation

end Overlays
