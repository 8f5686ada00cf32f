import Overlays.ResourceName
import Overlays.User

set_option autoImplicit false
set_option relaxedAutoImplicit false

namespace Overlays

/-- A place in the order of priority. -/
inductive Placement where
  | lowest
  | highest
  | above (package : String)
deriving DecidableEq

/-- Reads a placement: one of the two ends, or the package to be placed above. -/
def Placement.ofWord (word : String) : Placement :=
  if word = "lowest" then .lowest else if word = "highest" then .highest else .above word

/-- One operation of a commit: enabling or disabling a package. -/
@[ext] structure CommitOperation where
  enable : Bool
  package : String
deriving DecidableEq

/-- Why a text is no operation of a commit. -/
inductive CommitOperationError where
  | noSeparator (text : String)
  | unknownAction (action : String)
deriving DecidableEq

def CommitOperationError.message : CommitOperationError → String
  | .noSeparator text => "expected enable=PACKAGE or disable=PACKAGE, got `" ++ text ++ "`"
  | .unknownAction action => "unknown operation `" ++ action ++ "`"

namespace CommitOperation

def action (enable : Bool) : String := if enable then "enable" else "disable"

/-- Reads `enable=PACKAGE` or `disable=PACKAGE`; the package is all that follows the first equals sign. -/
def parse (text : String) : Except CommitOperationError CommitOperation :=
  match splitAtFirst? '=' text.toList with
  | none => .error (.noSeparator text)
  | some (before, after) =>
    let word := String.ofList before
    if word = action true then .ok ⟨true, String.ofList after⟩
    else if word = action false then .ok ⟨false, String.ofList after⟩
    else .error (.unknownAction word)

def text (o : CommitOperation) : String := action o.enable ++ "=" ++ o.package

end CommitOperation

/-- A command with its operands. -/
inductive Command where
  | list (package : Option String)
  | setEnabled (enable : Bool) (package : String)
  | enableExclusive (inCategory : Bool) (package : String)
  | setPriority (package : String) (placement : Placement)
  | lookup (isVerbose : Bool) (loaded resource : String)
  | commit (operations : List CommitOperation)
deriving DecidableEq

/-- What a command line asks for. -/
structure Invocation where
  stateFile : Option String
  debug : Bool
  noColor : Bool
  user : Option UserArg
  command : Command
deriving DecidableEq

end Overlays
