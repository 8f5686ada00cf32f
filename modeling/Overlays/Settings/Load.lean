import Overlays.Settings.Document

set_option autoImplicit false
set_option relaxedAutoImplicit false

namespace Overlays.Settings

variable {σ : Type} [FileStore σ]

/-- The names that a settings file may have. -/
def fileNames : List String := ["config.yaml", "config.yml"]

/-- The settings files that there are, or the directory where none is found. -/
def find (files : σ) : Except String (List String) :=
  match FileStore.settingsDirectory files with
  | .error _ => .error ""
  | .ok directory =>
    match (fileNames.map (joinPath directory)).filter (FileStore.contains files) with
    | [] => .error directory
    | paths => .ok paths

/-- Loads the one settings file that there is. The path of the state file may begin with a tilde. -/
def load (files : σ) : Except SettingsError Settings :=
  match find files with
  | .error searched => .error (.notFound searched)
  | .ok [path] => do
    let text ← (FileStore.read files path).mapError .file
    let settings ← ofText text
    let stateFile ← (expandTilde (FileStore.home files) settings.stateFile).mapError .file
    return { settings with stateFile }
  | .ok paths => .error (.multipleFound paths)

end Overlays.Settings
