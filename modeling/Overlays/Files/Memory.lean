import Overlays.Files.Basic
import Overlays.SortedMap

/-!
Files that are kept in memory, under paths that are compared as texts. Reading or writing a path can be made to
fail; a write that fails leaves everything as it was.
-/

set_option autoImplicit false
set_option relaxedAutoImplicit false

namespace Overlays

/-- Files in memory, and the reasons for which reading or writing some paths fails. -/
structure MemoryFiles where
  contents : SortedMap String String
  readFaults : SortedMap String String
  writeFaults : SortedMap String String
  home : Option String
  settingsDirectory : Option String
deriving DecidableEq, Inhabited

namespace MemoryFiles

def read (m : MemoryFiles) (path : String) : Except FileError String :=
  match m.readFaults.get? path, m.contents.get? path with
  | some reason, _ => .error (.system reason)
  | none, some text => .ok text
  | none, none => .error (.system "no such file")

def write (m : MemoryFiles) (path text : String) : Except FileError Unit × MemoryFiles :=
  match m.writeFaults.get? path with
  | some reason => (.error (.system reason), m)
  | none => (.ok (), { m with contents := m.contents.insert path text })

/-- Whether there is a file under a path; one that cannot be read is there. -/
def contains (m : MemoryFiles) (path : String) : Bool :=
  m.contents.contains path || m.readFaults.contains path

instance : FileStore MemoryFiles where
  read := read
  write := write
  contains := contains
  home := home
  settingsDirectory m := match m.settingsDirectory with
    | some dir => .ok dir
    | none => .error .homeNotFound

end MemoryFiles

end Overlays
