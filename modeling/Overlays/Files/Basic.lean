set_option autoImplicit false
set_option relaxedAutoImplicit false

namespace Overlays

/-- What can go wrong with a file or a path. -/
inductive FileError where
  /-- The system refused, for the reason given. -/
  | system (reason : String)
  | homeNotFound
deriving DecidableEq

def FileError.message : FileError → String
  | .system reason => "IO error: " ++ reason
  | .homeNotFound => "Home directory not found"

/-- What is said about a document that cannot be read, wherever the fault lies. -/
def unreadableDocument : String := "<yaml error>"

/-- A place where files are kept, by path. -/
class FileStore (σ : Type) where
  /-- The text of a file. -/
  read : σ → String → Except FileError String
  /-- Puts a text into a file, which need not be there before. -/
  write : σ → String → String → Except FileError Unit × σ
  /-- Whether something is found under a path. -/
  contains : σ → String → Bool
  /-- The directory that a leading tilde stands for. -/
  home : σ → Option String
  /-- The directory of the settings. -/
  settingsDirectory : σ → Except FileError String

/-- Replaces a leading tilde, alone or before a slash, by the home directory; no other tilde may lead. -/
def expandTilde (home : Option String) (path : String) : Except FileError String :=
  match path.toList with
  | '~' :: rest =>
    if rest.isEmpty || rest.head? == some '/' then
      match home with
      | some dir =>
        let expanded := dir ++ String.ofList rest
        if expanded.toList.head? == some '~' then .error .homeNotFound else .ok expanded
      | none => .error .homeNotFound
    else .error .homeNotFound
  | _ => .ok path

/-- The path of a name in a directory: without a doubled slash, and just the name if the directory is empty. -/
def joinPath (directory name : String) : String :=
  if directory = "" ∨ directory.toList.getLast? = some '/' then directory ++ name
  else directory ++ "/" ++ name

/-- The directory of the settings: one that is named for them, or else one for this program among the settings of
all programs, which are kept in the home directory unless another absolute path is given for them. -/
def findSettingsDirectory (named shared home : Option String) : Except FileError String :=
  match named, home with
  | some directory, _ => .ok directory
  | none, none => .error .homeNotFound
  | none, some home =>
    let base := match shared with
      | some directory => if directory.toList.head? = some '/' then directory else joinPath home ".config"
      | none => joinPath home ".config"
    .ok (joinPath base "overlay")

end Overlays
