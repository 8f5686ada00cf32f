import Overlays.Command.Run
import Overlays.Settings.Load

set_option autoImplicit false
set_option relaxedAutoImplicit false

namespace Overlays.Invocation

variable {σ : Type} [FileStore σ]

/-- What is left of the settings when the command line has its say: it names another state file, switches debugging
on or colors off. -/
def override (i : Invocation) (s : Settings) : Settings where
  stateFile := i.stateFile.getD s.stateFile
  defaultUser := s.defaultUser
  debug := s.debug || i.debug
  useColors := s.useColors && !i.noColor

/-- The settings for a run. A settings file need not be there if a state file is named. -/
def settings (i : Invocation) (files : σ) : Except SettingsError Settings :=
  match Settings.load files with
  | .ok s => .ok (i.override s)
  | .error (.notFound searched) =>
    if i.stateFile.isSome then .ok (i.override (.ofStateFile "")) else .error (.notFound searched)
  | .error e => .error e

def forUser (i : Invocation) (s : Settings) : UserId :=
  (i.user.map (·.resolve s.defaultUser)).getD s.defaultUser

/-- Runs the command under the settings for it; there may be a reason why printing fails. -/
def run (i : Invocation) (outputFault : Option String) (files : σ) :
    Except SettingsError (Settings × Outcome) × σ :=
  match i.settings files with
  | .error e => (.error e, files)
  | .ok s =>
    let (outcome, files) := i.command.run s.stateFile (i.forUser s) outputFault files
    (.ok (s, outcome), files)

/-- What a run shows: its exit status, its standard output, and lines for the terminal. -/
structure Report where
  status : Int
  output : String
  lines : List String
deriving DecidableEq

def startFailure (e : SettingsError) : String := "Error: " ++ e.message

/-- Runs the command, and puts into words what comes of it. -/
def report (i : Invocation) (terminal : Terminal) (outputFault : Option String) (files : σ) : Report × σ :=
  match i.run outputFault files with
  | (.error e, files) => (⟨1, "", [startFailure e]⟩, files)
  | (.ok (s, o), files) => (⟨o.exit.code, o.output, o.lines terminal s.useColors⟩, files)

end Overlays.Invocation
