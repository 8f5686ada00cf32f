import Overlays.Manager
import Overlays.Message

set_option autoImplicit false
set_option relaxedAutoImplicit false

namespace Overlays

/-- How a run ends. -/
inductive ExitStatus where
  | success
  | failure
  /-- The manager failed, or would not take the arguments of a call. -/
  | managerFailure
deriving DecidableEq, Inhabited

def ExitStatus.code : ExitStatus → Int
  | .success => 0
  | .failure => 1
  | .managerFailure => -1

/-- What a command leaves behind besides the files. -/
structure Outcome where
  exit : ExitStatus
  output : String
  messages : List Message
deriving DecidableEq

namespace Outcome

/-- A good end without output. -/
def done (messages : List Message) : Outcome := ⟨.success, "", messages⟩

def failed (messages : List Message) : Outcome := ⟨.failure, "", messages⟩

/-- Prints a text, unless there is a reason why printing fails. -/
def print (fault : Option String) (text : String) : Outcome :=
  match fault with
  | none => ⟨.success, text, []⟩
  | some reason => failed [.error ("Error: failed to write output: " ++ reason)]

def after (messages : List Message) (o : Outcome) : Outcome :=
  { o with messages := messages ++ o.messages }

def ofManagerError (e : ManagerError) : Outcome :=
  match e, e.remoteReason? with
  | _, some reason => ⟨.managerFailure, "", [.error ("Remote exception: " ++ reason)]⟩
  | .refused cause, none =>
    match cause.fault? with
    | some fault => ⟨.managerFailure, "", [.error ("Error: " ++ fault)]⟩
    | none => failed [.error ("Error: " ++ cause.message)]
  | e, none => failed [.error ("Error: " ++ e.message)]

def lines (o : Outcome) (terminal : Terminal) (useColors : Bool) : List String :=
  o.messages.map (Message.line terminal useColors)

end Outcome

end Overlays
