import Overlays.Registry.Overlay
import Overlays.ResourceName
import Overlays.Transaction.Basic

set_option autoImplicit false
set_option relaxedAutoImplicit false

namespace Overlays

/-- A package that overlays can target. -/
@[ext] structure Target where
  resources : SortedMap String String
deriving DecidableEq, Inhabited

/-- All targets by name, and the overlays of every user in order of priority, the lowest first. -/
@[ext] structure Registry where
  targets : SortedMap String Target
  users : SortedMap UserId (List Overlay)
deriving DecidableEq, Inhabited

/-- Why a registry turns a call down. -/
inductive Refusal where
  | packageNotFound (package : String) (user : UserId)
  | resourceNotFound (resource : ResourceName)
  | unsupported (request : Request)
  | immutable (package : String)
  | targetMissing (package : String)
deriving DecidableEq

/-- What is wrong with the arguments of a call; nothing if it only asks for what is not there. -/
def Refusal.fault? : Refusal → Option String
  | .packageNotFound .. | .resourceNotFound _ => none
  | .unsupported request => some ("unsupported request " ++ request.text)
  | .immutable package => some ("overlay `" ++ package ++ "` is immutable")
  | .targetMissing package => some ("target of overlay `" ++ package ++ "` is missing")

def Refusal.message (e : Refusal) : String :=
  match e with
  | .packageNotFound package user => "package `" ++ package ++ "` not found for user " ++ user.text
  | .resourceNotFound resource => "resource `" ++ resource.text ++ "` not found"
  | e => "invalid argument: " ++ e.fault?.getD ""

/-- The value of a resource, and a line for every package that defines it, in the order in which they count. -/
structure Resolution where
  value : String
  trace : List String
deriving DecidableEq

namespace Registry

/-- The registry without targets and users. -/
def empty : Registry := ⟨∅, ∅⟩

/-- The overlays of a user; none if the user is unknown. -/
def overlays (r : Registry) (user : UserId) : List Overlay := (r.users.get? user).getD []

/-- Gives a user these overlays. A user who is not known yet comes in. -/
def withOverlays (r : Registry) (user : UserId) (os : List Overlay) : Registry :=
  { r with users := r.users.insert user os }

/-- Makes a change to the overlays of a user; nothing if it is refused. -/
def change? (r : Registry) (user : UserId) (c : Change) : Option Registry :=
  (c.apply (r.overlays user)).map (r.withOverlays user)

def infos (r : Registry) (user : UserId) : List OverlayInfo := (r.overlays user).map (·.info user)

def infosForTarget (r : Registry) (target : String) (user : UserId) : List OverlayInfo :=
  (r.infos user).filter (·.target = target)

def addToGroup (groups : SortedMap String (List OverlayInfo)) (i : OverlayInfo) :
    SortedMap String (List OverlayInfo) :=
  groups.insert i.target ((groups.get? i.target).getD [] ++ [i])

/-- The reports about all overlays of a user, by target. -/
def infosByTarget (r : Registry) (user : UserId) : SortedMap String (List OverlayInfo) :=
  (r.infos user).foldl addToGroup ∅

/-- The report about the first overlay of a name. -/
def info? (r : Registry) (name : String) (user : UserId) : Option OverlayInfo :=
  (PriorityList.find? name (r.overlays user)).map (·.info user)

/-- Carries out one request. Enabling also moves the overlay to the highest priority. -/
def apply (r : Registry) (q : Request) : Except Refusal Registry :=
  match q.kind.known? with
  | none => .error (.unsupported q)
  | some type =>
    let os := r.overlays q.user
    match PriorityList.find? q.package os with
    | none => .error (.packageNotFound q.package q.user)
    | some o =>
      if ¬o.canChange then .error (.immutable q.package)
      else match type with
        | .setEnabled =>
          if o.state = .missingTarget then .error (.targetMissing q.package)
          else .ok (r.withOverlays q.user
            (PriorityList.eraseFirst q.package os ++ [o.withState .enabled]))
        | .setDisabled =>
          .ok (r.withOverlays q.user (PriorityList.updateFirst q.package (·.withState .disabled) os))

/-- Carries out the requests of a transaction in order; the first one that is refused turns all of them down. -/
def commit (r : Registry) (t : Transaction) : Except Refusal Registry := t.requests.foldlM apply r

/-- Who defines a resource, with the value: its own package first, then enabled overlays by priority. -/
def definitions (r : Registry) (resource : ResourceName) (user : UserId) : List (String × String) :=
  let base := ((r.targets.get? resource.package).bind (·.resources.get? resource.entry)).toList.map
    fun value => (resource.package ++ " (base)", value)
  let inOverlays := (r.overlays user).filterMap fun o =>
    if o.target = resource.package ∧ o.state.isEnabled then
      (o.resources.get? resource.entry).map fun value => (o.name ++ " (overlay)", value)
    else none
  base ++ inOverlays

/-- Finds the value that a resource has for a loaded package: the last definition counts. -/
def lookup (r : Registry) (loaded : String) (resource : ResourceName) (user : UserId) :
    Except Refusal Resolution :=
  if ¬r.targets.contains loaded then .error (.packageNotFound loaded user)
  else
    let found := r.definitions resource user
    match found.getLast? with
    | none => .error (.resourceNotFound resource)
    | some (_, value) =>
      .ok ⟨value, ("Resolution for " ++ resource.text) :: found.map fun d => "\t" ++ d.1⟩

end Registry

end Overlays
