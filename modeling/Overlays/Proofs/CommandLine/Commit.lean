import Overlays.Session
import Overlays.Proofs.Command.Batch
import Overlays.Proofs.CommandLine.Operands

/-!
A commit from the command line down to the state file. Its texts can fail to be operations, an operation can be without
the name of a package, and the registry can turn a request down; each of these is looked for in the whole batch before
the next one, and nothing is written unless none of them is found.
-/

set_option autoImplicit false
set_option relaxedAutoImplicit false

namespace Overlays

namespace CommandLine

open Checked CommitOperation

/-- Runs what a command line asks for. One that asks for nothing that can be run leaves the files alone. -/
def run {σ : Type} [FileStore σ] (args : List String) (terminal : Terminal) (fault : Option String) (files : σ) :
    Except Usage Invocation.Report × σ :=
  match parse args with
  | .error u => (.error u, files)
  | .ok i => (.ok (i.report terminal fault files).1, (i.report terminal fault files).2)

variable {front behind : Given} {before args texts : List String} {files : MemoryFiles} {s : Settings} {user : UserId}
  {r : Registry} {operations : List CommitOperation}

end CommandLine

end Overlays
