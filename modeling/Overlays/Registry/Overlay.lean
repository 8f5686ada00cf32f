import Overlays.SortedMap
import Overlays.User

/-!
Overlay packages of one user in order of priority, the lowest first, and the changes that can be made to them.
An overlay is addressed by its name; where a name occurs twice, the first one counts.
-/

set_option autoImplicit false
set_option relaxedAutoImplicit false

namespace Overlays

/-- The state of an overlay for one user. -/
inductive OverlayState where
  | disabled
  | enabled
  /-- Enabled for good. -/
  | enabledImmutable
  /-- The package that it targets is not installed. -/
  | missingTarget
deriving DecidableEq, Inhabited

namespace OverlayState

/-- Whether an overlay in this state takes part in finding resources. -/
def isEnabled : OverlayState → Bool
  | .enabled | .enabledImmutable => true
  | .disabled | .missingTarget => false

def word : OverlayState → String
  | .disabled => "disabled"
  | .enabled => "enabled"
  | .enabledImmutable => "enabled_immutable"
  | .missingTarget => "missing_target"

def ofWord? (s : String) : Option OverlayState :=
  if s = "disabled" then some .disabled
  else if s = "enabled" then some .enabled
  else if s = "enabled_immutable" then some .enabledImmutable
  else if s = "missing_target" then some .missingTarget
  else none

/-- Enabled or disabled, as the flag says. -/
def ofFlag (enable : Bool) : OverlayState := if enable then .enabled else .disabled

end OverlayState

/-- An overlay package, which replaces resources of its target. -/
@[ext] structure Overlay where
  name : String
  target : String
  category : Option String
  state : OverlayState
  isMutable : Bool
  resources : SortedMap String String
deriving DecidableEq

namespace Overlay

/-- Whether its state and its place may be changed. -/
def canChange (o : Overlay) : Bool := o.isMutable && o.state ≠ .enabledImmutable

def withState (o : Overlay) (s : OverlayState) : Overlay := { o with state := s }

end Overlay

/-- What is reported about one overlay of a user. -/
structure OverlayInfo where
  package : String
  target : String
  category : Option String
  state : OverlayState
  isMutable : Bool
  user : UserId
deriving DecidableEq

def Overlay.info (o : Overlay) (user : UserId) : OverlayInfo :=
  ⟨o.name, o.target, o.category, o.state, o.canChange, user⟩

namespace PriorityList

/-- The first overlay of a name. -/
def find? (name : String) (os : List Overlay) : Option Overlay := os.find? (·.name = name)

/-- Replaces the first overlay of a name. -/
def updateFirst (name : String) (f : Overlay → Overlay) : List Overlay → List Overlay
  | [] => []
  | o :: os => if o.name = name then f o :: os else o :: updateFirst name f os

/-- Takes the first overlay of a name out. -/
def eraseFirst (name : String) : List Overlay → List Overlay
  | [] => []
  | o :: os => if o.name = name then os else o :: eraseFirst name os

/-- Puts an overlay directly behind the first one of a name. -/
def insertAfter (name : String) (x : Overlay) : List Overlay → List Overlay
  | [] => []
  | o :: os => if o.name = name then o :: x :: os else o :: insertAfter name x os

/-- The first overlay of a name, if it may be changed. -/
def changeable? (name : String) (os : List Overlay) : Option Overlay :=
  (find? name os).filter Overlay.canChange

/-- Enables or disables an overlay; enabling is refused while its target is missing. -/
def setEnabled (name : String) (enable : Bool) (os : List Overlay) : Option (List Overlay) := do
  let o ← changeable? name os
  if enable ∧ o.state = .missingTarget then none
  else some (updateFirst name (·.withState (.ofFlag enable)) os)

/-- Disables the enabled overlays that may be changed, bear another name and satisfy a condition. -/
def disableOthers (name : String) (p : Overlay → Bool) (os : List Overlay) : List Overlay :=
  os.map fun o =>
    if o.name ≠ name ∧ o.canChange ∧ o.state.isEnabled ∧ p o then o.withState .disabled else o

/-- Enables an overlay and disables the others of its target, or just disables it. -/
def setEnabledExclusive (name : String) (enable : Bool) (os : List Overlay) : Option (List Overlay) := do
  let o ← find? name os
  let changed ← setEnabled name enable os
  return if enable then disableOthers name (fun x => x.target = o.target) changed else changed

/-- Enables an overlay that has a category and disables the others of its target in that category. -/
def setEnabledExclusiveInCategory (name : String) (os : List Overlay) : Option (List Overlay) := do
  let o ← find? name os
  let category ← o.category
  let changed ← setEnabled name true os
  return disableOthers name (fun x => x.target = o.target ∧ x.category = some category) changed

/-- Moves an overlay directly behind another one of the same target. -/
def setPriority (name parent : String) (os : List Overlay) : Option (List Overlay) := do
  if name = parent then none
  else
    let o ← changeable? name os
    let q ← find? parent os
    if o.target = q.target then some (insertAfter parent o (eraseFirst name os)) else none

def setHighestPriority (name : String) (os : List Overlay) : Option (List Overlay) :=
  (changeable? name os).map fun o => eraseFirst name os ++ [o]

def setLowestPriority (name : String) (os : List Overlay) : Option (List Overlay) :=
  (changeable? name os).map fun o => o :: eraseFirst name os

end PriorityList

/-- A change to the overlays of one user. -/
inductive Change where
  | setEnabled (name : String) (enable : Bool)
  | setEnabledExclusive (name : String) (enable : Bool)
  | setEnabledExclusiveInCategory (name : String)
  | setPriority (name parent : String)
  | setHighestPriority (name : String)
  | setLowestPriority (name : String)
deriving DecidableEq

/-- The overlays after a change, or nothing if it is refused. -/
def Change.apply : Change → List Overlay → Option (List Overlay)
  | .setEnabled name enable => PriorityList.setEnabled name enable
  | .setEnabledExclusive name enable => PriorityList.setEnabledExclusive name enable
  | .setEnabledExclusiveInCategory name => PriorityList.setEnabledExclusiveInCategory name
  | .setPriority name parent => PriorityList.setPriority name parent
  | .setHighestPriority name => PriorityList.setHighestPriority name
  | .setLowestPriority name => PriorityList.setLowestPriority name

end Overlays
