import Overlays.Manager

set_option autoImplicit false
set_option relaxedAutoImplicit false

namespace Overlays.Listing

variable {σ : Type} [FileStore σ]

def mark : OverlayState → String
  | .enabled | .enabledImmutable => "[x]"
  | .disabled => "[ ]"
  | .missingTarget => "---"

def entry (i : OverlayInfo) : String := mark i.state ++ " " ++ i.package ++ "\n"

def block (target : String) (is : List OverlayInfo) : String :=
  target ++ "\n" ++ String.join (is.map entry)

/-- All overlays of a user, with an empty line behind each target. -/
def all (path : String) (user : UserId) (files : σ) : Except ManagerError String :=
  (Manager.infosByTarget path user files).map fun groups =>
    String.join (groups.entries.map fun g => block g.1 g.2 ++ "\n")

/-- The overlays of a target, or else the one overlay of that name. -/
def package (path name : String) (user : UserId) (files : σ) : Except ManagerError String := do
  let is ← Manager.infosForTarget path name user files
  if is.isEmpty then
    let i ← Manager.info? path name user files
    return (i.map entry).getD ""
  else return block name is

end Overlays.Listing
