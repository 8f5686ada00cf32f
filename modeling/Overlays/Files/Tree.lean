import Overlays.SortedMap

/-!
A tree of directories and files, addressed by paths. A path is walked name by name; only a directory can be walked
through, and two dots lead back from where the walk has come.
-/

set_option autoImplicit false
set_option relaxedAutoImplicit false

namespace Overlays

/-- What there can be under a name. -/
inductive FileEntry where
  | directory
  | file (bytes : List UInt8)
deriving DecidableEq

/-- Why the system refuses to do something with a path. -/
inductive TreeFault where
  | notFound
  | alreadyThere
  | notADirectory
  | isADirectory
  | nameTooLong
  | nulInName
  | notText
deriving DecidableEq

/-- The words of the system for a fault. -/
def TreeFault.message : TreeFault → String
  | .notFound => "No such file or directory (os error 2)"
  | .alreadyThere => "File exists (os error 17)"
  | .notADirectory => "Not a directory (os error 20)"
  | .isADirectory => "Is a directory (os error 21)"
  | .nameTooLong => "File name too long (os error 36)"
  | .nulInName => "file name contained an unexpected NUL byte"
  | .notText => "stream did not contain valid UTF-8"

/-- Directories and files by the names that lead to them from the root, which is a directory itself. -/
@[ext] structure FileTree where
  entries : SortedMap (List String) FileEntry
deriving DecidableEq, Inhabited

namespace FileTree

def splitAtSlashes : List Char → List (List Char)
  | [] => [[]]
  | c :: cs =>
    if c = '/' then [] :: splitAtSlashes cs
    else match splitAtSlashes cs with
      | [] => [[c]]
      | part :: parts => (c :: part) :: parts

/-- The parts of a path. The empty ones show where slashes lead it, repeat and end it. -/
def parts (path : String) : List String := (splitAtSlashes path.toList).map String.ofList

def names (path : String) : List String := (parts path).filter (· ≠ "")

/-- The names of a path that say where to go, without those that say to stay. -/
def steps (path : String) : List String := (names path).filter (· ≠ ".")

def endsInSlash (path : String) : Bool := path.toList.getLast? = some '/'

/-- Whether a name does not go on to an entry of the directory. -/
def isDots (name : String) : Bool := name = "" || name = "." || name = ".."

def entry (t : FileTree) (directory : List String) (name : String) : Except TreeFault (Option FileEntry) :=
  if 255 < name.utf8ByteSize then .error .nameTooLong
  else .ok (t.entries.get? (directory ++ [name]))

def enter (t : FileTree) (directory : List String) (name : String) : Except TreeFault (List String) :=
  if name = ".." then .ok directory.dropLast
  else if isDots name then .ok directory
  else do
    match ← t.entry directory name with
    | none => .error .notFound
    | some (.file _) => .error .notADirectory
    | some .directory => .ok (directory ++ [name])

def walk (t : FileTree) (names : List String) : Except TreeFault (List String) := names.foldlM t.enter []

/-- Refuses names that no system can be asked for. -/
def checkNames (names : List String) : Except TreeFault Unit :=
  if names.any (·.toList.contains '\x00') then .error .nulInName else .ok ()

def find (t : FileTree) (names : List String) : Except TreeFault FileEntry := do
  checkNames names
  match names.getLast? with
  | none => .ok .directory
  | some last =>
    if isDots last then
      let _ ← t.walk names
      return .directory
    else
      match ← t.entry (← t.walk names.dropLast) last with
      | some e => .ok e
      | none => .error .notFound

def findPath (t : FileTree) (path : String) : Except TreeFault FileEntry := do
  checkNames [path]
  if path = "" then .error .notFound else t.find (parts path)

def contains (t : FileTree) (path : String) : Bool := (t.findPath path).isOk

def read (t : FileTree) (path : String) : Except TreeFault String := do
  match ← t.findPath path with
  | .directory => .error .isADirectory
  | .file bytes =>
    match String.fromUTF8? ⟨bytes.toArray⟩ with
    | some text => .ok text
    | none => .error .notText

def put (t : FileTree) (directory : List String) (name : String) (e : FileEntry) : FileTree :=
  ⟨t.entries.insert (directory ++ [name]) e⟩

/-- Makes a new directory where names lead to nothing yet but for the last of them. -/
def makeDirectory (t : FileTree) (names : List String) : Except TreeFault FileTree := do
  checkNames names
  match names.getLast? with
  | none => .error .alreadyThere
  | some last =>
    let directory ← t.walk names.dropLast
    if isDots last then .error .alreadyThere
    else match ← t.entry directory last with
      | some _ => .error .alreadyThere
      | none => .ok (t.put directory last .directory)

/-- Makes a directory unless it is there. -/
def ensureDirectory (t : FileTree) (names : List String) : Except TreeFault FileTree :=
  match t.makeDirectory names, t.find names with
  | .ok t, _ => .ok t
  | .error _, .ok .directory => .ok t
  | .error e, _ => .error e

/-- Makes a directory and those that lead to it, unless they are there. The names come in reverse. -/
def ensureDirectories (t : FileTree) : List String → Except TreeFault Unit × FileTree
  | [] => (.ok (), t)
  | last :: before =>
    let names := (last :: before).reverse
    match t.ensureDirectory names with
    | .ok t => (.ok (), t)
    | .error .notFound =>
      match ensureDirectories t before with
      | (.error e, t) => (.error e, t)
      | (.ok (), t) =>
        match t.ensureDirectory names with
        | .ok t => (.ok (), t)
        | .error e => (.error e, t)
    | .error e => (.error e, t)

/-- Writes the file that a path leads to, in a directory that is there. -/
def writeFile (t : FileTree) (path : String) (bytes : List UInt8) : Except TreeFault FileTree := do
  checkNames [path]
  match (names path).getLast? with
  | none => .error (if path = "" then .notFound else .isADirectory)
  | some last =>
    let directory ← t.walk (names path).dropLast
    if isDots last then
      let _ ← t.enter directory last
      .error .isADirectory
    else if endsInSlash path then .error .isADirectory
    else match ← t.entry directory last with
      | some .directory => .error .isADirectory
      | _ => .ok (t.put directory last (.file bytes))

/-- Writes the file that a path leads to, and makes the directories for it first. Directories that are made stay
even if the file cannot be written. -/
def write (t : FileTree) (path : String) (bytes : List UInt8) : Except TreeFault Unit × FileTree :=
  match t.ensureDirectories (steps path).reverse.tail with
  | (.error e, t) => (.error e, t)
  | (.ok (), t) =>
    match t.writeFile path bytes with
    | .ok t => (.ok (), t)
    | .error e => (.error e, t)

end FileTree

end Overlays
