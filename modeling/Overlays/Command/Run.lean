import Overlays.Command.Listing
import Overlays.Command.Outcome
import Overlays.CommandLine.Basic

set_option autoImplicit false
set_option relaxedAutoImplicit false

namespace Overlays.Command

variable {σ : Type} [FileStore σ]

/-- Lists overlays. It is said when a user has none at all. -/
def runList (path : String) (package : Option String) (user : UserId) (outputFault : Option String)
    (files : σ) : Outcome :=
  match package with
  | none =>
    match Listing.all path user files with
    | .error e => .ofManagerError e
    | .ok text =>
      let note := if text = "" then [.info ("No overlays installed for user " ++ user.text)] else []
      (Outcome.print outputFault text).after note
  | some name =>
    match Listing.package path name user files with
    | .error e => .ofManagerError e
    | .ok text => .print outputFault text

/-- The end of a command that makes a change: good news if there are any, or what could not be done. -/
def changeOutcome (done : List Message) (undone : String) : Except ManagerError Bool → Outcome
  | .ok true => .done done
  | .ok false => .failed [.error ("Error: failed to " ++ undone),
      .suggestion "Run `overlay-cli list` to check the package name and state"]
  | .error e => .ofManagerError e

def runChange (path : String) (c : Change) (user : UserId) (done : List Message) (undone : String)
    (files : σ) : Outcome × σ :=
  let (result, files) := Manager.change path c user files
  (changeOutcome done (undone ++ " for user " ++ user.text) result, files)

def placing (package : String) : Placement → Change
  | .lowest => .setLowestPriority package
  | .highest => .setHighestPriority package
  | .above parent => .setPriority package parent

/-- Prints the value of a resource, below the lines about where it comes from if they are wanted. -/
def runLookup (path : String) (isVerbose : Bool) (loaded resource : String) (user : UserId)
    (outputFault : Option String) (files : σ) : Outcome :=
  match ResourceName.parse resource with
  | .error e => .failed [.error ("Error: " ++ e.message)]
  | .ok name =>
    match Manager.lookup path loaded name user files with
    | .ok r =>
      let trace := if isVerbose then String.join (r.trace.map (· ++ "\n")) else ""
      .print outputFault (trace ++ r.value ++ "\n")
    | .error (.refused (.packageNotFound ..)) =>
      .failed [.error ("Error: failed to get resources for package " ++ loaded ++ " for user " ++ user.text)]
    | .error (.refused (.resourceNotFound _)) =>
      .failed [.error ("Error: failed to get the resource " ++ resource)]
    | .error e => .ofManagerError e

/-- The transaction of some operations, or the first operation that cannot be part of one. -/
def transaction (operations : List CommitOperation) (user : UserId) :
    Except (CommitOperation × RequestError) Transaction :=
  (operations.foldlM (fun (b : TransactionBuilder) o =>
    (b.setEnabled o.package o.enable user).mapError fun e => (o, e)) .empty).map (·.build)

def runCommit (path : String) (operations : List CommitOperation) (user : UserId) (files : σ) : Outcome × σ :=
  match transaction operations user with
  | .error (o, e) => (.failed [.error ("Error: `" ++ o.text ++ "`: " ++ e.message)], files)
  | .ok t =>
    match Manager.commit path t files with
    | (.ok (), files) =>
      (.done [.success ("Committed " ++ Text.Numeral.natText t.size ++ " request(s)")], files)
    | (.error e, files) => (.ofManagerError e, files)

def run (path : String) (c : Command) (user : UserId) (outputFault : Option String) (files : σ) :
    Outcome × σ :=
  match c with
  | .list package => (runList path package user outputFault files, files)
  | .setEnabled enable package =>
    let done := if enable then "Enabled " else "Disabled "
    runChange path (.setEnabled package enable) user [.success (done ++ package)]
      (CommitOperation.action enable ++ " " ++ package) files
  | .enableExclusive inCategory package =>
    let change := if inCategory then Change.setEnabledExclusiveInCategory package
      else .setEnabledExclusive package true
    runChange path change user [.success ("Enabled " ++ package ++ " exclusively")]
      ("exclusively enable " ++ package) files
  | .setPriority package placement =>
    runChange path (placing package placement) user [] ("change the priority of " ++ package) files
  | .lookup isVerbose loaded resource =>
    (runLookup path isVerbose loaded resource user outputFault files, files)
  | .commit operations => runCommit path operations user files

end Overlays.Command
