import Overlays.Files.Basic
import Overlays.Registry.Document

/-!
The overlay manager, which keeps a registry in a state file. Every call reads the file anew; only a change that
was made, and a transaction with requests that were all carried out, is written back.
-/

set_option autoImplicit false
set_option relaxedAutoImplicit false

namespace Overlays

/-- Why the manager fails. -/
inductive ManagerError where
  | readFailed (path : String) (cause : FileError)
  | parseFailed (path : String)
  | writeFailed (path : String) (cause : FileError)
  | refused (cause : Refusal)
deriving DecidableEq

namespace ManagerError

def remoteReason? : ManagerError → Option String
  | .readFailed path cause => some ("failed to read " ++ path ++ ": " ++ cause.message)
  | .parseFailed path => some ("failed to parse " ++ path ++ ": " ++ unreadableDocument)
  | .writeFailed path cause => some ("failed to write " ++ path ++ ": " ++ cause.message)
  | .refused _ => none

def message (e : ManagerError) : String :=
  match e with
  | .refused cause => cause.message
  | e => "remote failure: " ++ e.remoteReason?.getD ""

end ManagerError

/-- A request to the manager. -/
inductive Call where
  | all (user : UserId)
  | target (name : String) (user : UserId)
  | info (package : String) (user : UserId)
  | change (change : Change) (user : UserId)
  | lookup (loaded : String) (resource : ResourceName) (user : UserId)
  | commit (transaction : Transaction)
deriving DecidableEq

/-- An answer of the manager. -/
inductive Reply where
  | groups (groups : SortedMap String (List OverlayInfo))
  | infos (infos : List OverlayInfo)
  | info (info : Option OverlayInfo)
  | changed (isChanged : Bool)
  | resolution (resolution : Resolution)
  | committed
deriving DecidableEq

namespace Manager

variable {σ : Type} [FileStore σ]

/-- The registry of a state file. A file that is not there holds the empty registry. -/
def load (path : String) (files : σ) : Except ManagerError Registry :=
  if !FileStore.contains files path then .ok .empty
  else match FileStore.read files path with
    | .error cause => .error (.readFailed path cause)
    | .ok text =>
      match Registry.ofText? text with
      | some r => .ok r
      | none => .error (.parseFailed path)

def store (path : String) (r : Registry) (files : σ) : Except ManagerError Unit × σ :=
  match FileStore.write files path r.toText with
  | (.ok (), files) => (.ok (), files)
  | (.error cause, files) => (.error (.writeFailed path cause), files)

/-- Answers a query without touching the files. -/
def query {α : Type} (path : String) (f : Registry → α) (files : σ) : Except ManagerError α :=
  (load path files).map f

/-- The reports about all overlays of a user, by target. -/
def infosByTarget (path : String) (user : UserId) (files : σ) :
    Except ManagerError (SortedMap String (List OverlayInfo)) :=
  query path (·.infosByTarget user) files

def infosForTarget (path target : String) (user : UserId) (files : σ) :
    Except ManagerError (List OverlayInfo) :=
  query path (·.infosForTarget target user) files

def info? (path package : String) (user : UserId) (files : σ) : Except ManagerError (Option OverlayInfo) :=
  query path (·.info? package user) files

def lookup (path loaded : String) (resource : ResourceName) (user : UserId) (files : σ) :
    Except ManagerError Resolution := do
  let r ← load path files
  (r.lookup loaded resource user).mapError .refused

/-- Makes a change, and tells whether it was made. -/
def change (path : String) (c : Change) (user : UserId) (files : σ) : Except ManagerError Bool × σ :=
  match load path files with
  | .error e => (.error e, files)
  | .ok r =>
    match r.change? user c with
    | none => (.ok false, files)
    | some r =>
      let (written, files) := store path r files
      (written.map fun _ => true, files)

def commit (path : String) (t : Transaction) (files : σ) : Except ManagerError Unit × σ :=
  match load path files with
  | .error e => (.error e, files)
  | .ok r =>
    match r.commit t with
    | .error cause => (.error (.refused cause), files)
    | .ok r => if t.isEmpty then (.ok (), files) else store path r files

def run (path : String) (c : Call) (files : σ) : Except ManagerError Reply × σ :=
  match c with
  | .all user => ((infosByTarget path user files).map .groups, files)
  | .target name user => ((infosForTarget path name user files).map .infos, files)
  | .info package user => ((info? path package user files).map .info, files)
  | .lookup loaded resource user => ((lookup path loaded resource user files).map .resolution, files)
  | .change c user =>
    let (result, files) := change path c user files
    (result.map .changed, files)
  | .commit t =>
    let (result, files) := commit path t files
    (result.map fun _ => .committed, files)

end Manager

end Overlays
