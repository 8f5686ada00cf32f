import Overlays.Files.Basic
import Overlays.Settings.Value
import Overlays.User

set_option autoImplicit false
set_option relaxedAutoImplicit false

namespace Overlays

/-- The settings of a run. -/
structure Settings where
  /-- The file that the registry is kept in. -/
  stateFile : String
  /-- The user who is current. -/
  defaultUser : UserId
  debug : Bool
  useColors : Bool
deriving DecidableEq, Inhabited

namespace Settings

/-- The settings of a state file about which nothing more is said. -/
def ofStateFile (path : String) : Settings := ⟨path, .system, false, true⟩

/-- What a setting should have been. -/
inductive Expected where
  | text
  | whole
  | word
  | truth
deriving DecidableEq

def Expected.words : Expected → String
  | .text => "a string"
  | .whole => "an integer"
  | .word => "an signed 32 bit integer"
  | .truth => "a boolean"

end Settings

/-- Why there are no settings. -/
inductive SettingsError where
  | file (cause : FileError)
  | notFound (searched : String)
  | multipleFound (paths : List String)
  /-- The document does not follow the rules of its language or is not a table. -/
  | unreadable
  | missing (field : String)
  | mismatch (found : Settings.Value) (expected : Settings.Expected) (field : String)
deriving DecidableEq

def SettingsError.message : SettingsError → String
  | .file cause => cause.message
  | .notFound searched => "No configuration file found in " ++ searched
  | .multipleFound paths => "Multiple configuration files found: " ++ ", ".intercalate paths
  | .unreadable => unreadableDocument
  | .missing field => "missing configuration field \"" ++ field ++ "\""
  | .mismatch found expected field =>
    "invalid type: " ++ found.words ++ ", expected " ++ expected.words ++ " for key `" ++ field ++ "`"

end Overlays
