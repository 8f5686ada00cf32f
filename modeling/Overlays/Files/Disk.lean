import Overlays.Files.Basic
import Overlays.Files.Tree

set_option autoImplicit false
set_option relaxedAutoImplicit false

namespace Overlays

/-- A tree of files, the home directory, and directories that are named for settings. -/
structure Disk where
  tree : FileTree
  home : Option String
  /-- The directory that is named for the settings of all programs. -/
  sharedSettings : Option String
  /-- The directory that is named for the settings of this program. -/
  ownSettings : Option String
deriving DecidableEq, Inhabited

def TreeFault.toError (fault : TreeFault) : FileError := .system fault.message

namespace Disk

/-- Writes bytes into a file, and makes the directories for it first. -/
def writeBytes (d : Disk) (path : String) (bytes : List UInt8) : Except FileError Unit × Disk :=
  let (result, tree) := d.tree.write path bytes
  (result.mapError TreeFault.toError, { d with tree })

instance : FileStore Disk where
  read d path := (d.tree.read path).mapError TreeFault.toError
  write d path text := d.writeBytes path text.toUTF8.toList
  contains d path := d.tree.contains path
  home := home
  settingsDirectory d := findSettingsDirectory d.ownSettings d.sharedSettings d.home

end Disk

end Overlays
