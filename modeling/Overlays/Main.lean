import Overlays.CommandLine.Help
import Overlays.CommandLine.Parser
import Overlays.Files.Memory
import Overlays.Session

/-!
The program. What a run can need is read into memory first, the run is computed there, and what it changes is
written back. Where the system refuses to write or to print, the run is computed again with that refusal known.
-/

set_option autoImplicit false
set_option relaxedAutoImplicit false

namespace Overlays.Program

/-- The words of the system for an error. -/
def reason : IO.Error → String
  | .noFileOrDirectory _ code details
  | .inappropriateType _ code details
  | .permissionDenied _ code details
  | .alreadyExists _ code details
  | .resourceExhausted _ code details
  | .invalidArgument _ code details => details ++ " (os error " ++ toString code ++ ")"
  | e => toString e

/-- Puts what is found under a path into files in memory: its text, or why it cannot be read. -/
def snapshot (m : MemoryFiles) (path : String) : IO MemoryFiles := do
  match ← (IO.FS.readBinFile path).toBaseIO with
  | .ok bytes =>
    match String.fromUTF8? bytes with
    | some text => return { m with contents := m.contents.insert path text }
    | none => return { m with
        readFaults := m.readFaults.insert path "stream did not contain valid UTF-8" }
  | .error (.noFileOrDirectory ..) => return m
  | .error (.inappropriateType _ 20 _) => return m
  | .error e => return { m with readFaults := m.readFaults.insert path (reason e) }

/-- The part of a path in front of its last slash. -/
def parent (path : String) : String :=
  String.ofList ((path.toList.reverse.dropWhile (· ≠ '/')).drop 1).reverse

/-- Writes a file, and makes the directories for it first. -/
def write (path text : String) : IO Unit := do
  if parent path ≠ "" then IO.FS.createDirAll (parent path)
  IO.FS.writeFile path text

/-- What the terminal can show, as the surroundings say. -/
def terminal : IO Terminal := do
  let language := (← IO.getEnv "LANG").getD ""
  let isPlain := (← IO.getEnv "NO_COLOR").isSome || (← IO.getEnv "CLICOLOR") = some "0"
  let kind := (← IO.getEnv "TERM").getD "dumb"
  let isTerminal ← (← IO.getStderr).isTty
  let isForced := (← IO.getEnv "CLICOLOR_FORCE").getD "0" ≠ "0"
  return ⟨languageHasEmoji language, isForced || (isTerminal && !isPlain && kind ≠ "dumb")⟩

def gather (i : Invocation) : IO MemoryFiles := do
  let home ← IO.getEnv "HOME"
  let directory := findSettingsDirectory (← IO.getEnv "OVERLAY_CONFIG_DIR")
    (← IO.getEnv "XDG_CONFIG_HOME") home
  let start : MemoryFiles := ⟨∅, ∅, ∅, home, directory.toOption⟩
  let candidates := match directory with
    | .ok directory => Settings.fileNames.map (joinPath directory)
    | .error _ => []
  let files ← candidates.foldlM snapshot start
  match i.settings files with
  | .ok s => snapshot files s.stateFile
  | .error _ => return files

/-- Computes a run and writes the files that it changes. -/
def carryOut (i : Invocation) (terminal : Terminal) (files : MemoryFiles) : IO Invocation.Report := do
  let (report, after) := i.report terminal none files
  for (path, text) in after.contents.entries do
    if files.contents.get? path ≠ some text then
      if let .error e ← (write path text).toBaseIO then
        let faults := files.writeFaults.insert path (reason e)
        return (i.report terminal none { files with writeFaults := faults }).1
  return report

/-- Prints a report, and gives its exit status. -/
def display (r : Invocation.Report) : IO UInt32 := do
  let stdout ← IO.getStdout
  stdout.putStr r.output
  stdout.flush
  for line in r.lines do IO.eprintln line
  return (r.status % 256).toNat.toUInt32

def run (i : Invocation) : IO UInt32 := do
  let terminal ← terminal
  let files ← gather i
  let report ← carryOut i terminal files
  match ← (display report).toBaseIO with
  | .ok status => return status
  | .error e => display { (i.report terminal (some (reason e)) files).1 with output := "" }

end Overlays.Program

open Overlays in
/-- Reads the command line, and runs what it asks for. -/
def main (args : List String) : IO UInt32 := do
  match CommandLine.parse args with
  | .ok i => Program.run i
  | .error .help => IO.print CommandLine.helpText; return 0
  | .error .version => IO.print CommandLine.versionText; return 0
  | .error u => IO.eprint ("error: " ++ u.message ++ "\n\n" ++ CommandLine.usageText); return 1
