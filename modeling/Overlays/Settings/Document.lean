import Overlays.Settings.Basic
import Overlays.Yaml.Document

/-!
Settings as a document: a table of fields by name. Fields that are not settings are passed over, but the whole
document must be sound: every key names something, no table has a key twice, and every decimal is a number.
-/

set_option autoImplicit false
set_option relaxedAutoImplicit false

namespace Overlays.Settings

open Yaml

/-- A reading step. It keeps the values of the anchors that are complete. -/
abbrev Reading (α : Type) := StateT (List (Nat × Value)) Option α

namespace Reading

/-- Goes on with a result, or gives up. -/
def require {α : Type} (x : Option α) : Reading α := fun known => x.map (·, known)

/-- The entries of a table by name, if all keys have names and no two keys are equal. -/
def named? (es : List (Value × Value)) : Option (List (String × Value)) :=
  if (es.map Prod.fst).Nodup then es.mapM fun e => do return (← e.1.name?, ← e.2.kept?) else none

mutual

/-- The value of a node. A reference to a value that is not complete yet is nothing. -/
def value : Node → Reading Value
  | .scalar s style tag => return .ofScalar s style tag
  | .reference number => do return ((← get).lookup number).getD .nothing
  | .anchored number node => do
    let v ← value node
    modify ((number, v) :: ·)
    return v
  | .sequence _ ns => do
    let vs ← values ns
    let _ ← require (vs.mapM Value.kept?)
    return .list
  | .mapping _ es => do
    let _ ← require (named? (← pairs es))
    return .table

def values : List Node → Reading (List Value)
  | [] => return []
  | n :: ns => do return (← value n) :: (← values ns)

def pairs : List (Node × Node) → Reading (List (Value × Value))
  | [] => return []
  | (k, v) :: es => do return (← value k, ← value v) :: (← pairs es)

end

def fields : Node → Reading (List (String × Value))
  | .anchored _ node => fields node
  | .mapping _ es => do require (named? (← pairs es))
  | _ => require none

end Reading

/-- Where reading a path stands. -/
inductive PathState where
  | name
  | afterDot
  | bracket
  | afterMinus
  | digits
  | afterDigits
  | closed

def isNameChar (c : Char) : Bool := c.isAlphanum || c == '_' || c == '-'

/-- Whether a character is a space between words of a path. -/
def isPathSpace (c : Char) : Bool := c == ' ' || c == '\t'

/-- Goes on by one character of a path, `.name` and `[number]` following a name in any order. -/
def PathState.next? : PathState → Char → Option PathState
  | .name, c => if isNameChar c then some .name else closed c
  | .closed, c => closed c
  | .afterDot, c => if isNameChar c then some .name else none
  | .bracket, c =>
    if isPathSpace c then some .bracket
    else if c = '-' then some .afterMinus
    else if c.isDigit then some .digits else none
  | .afterMinus, c => if c.isDigit then some .digits else none
  | .digits, c => if c.isDigit then some .digits else afterDigits c
  | .afterDigits, c => afterDigits c
where
  /-- Goes on behind a complete step. -/
  closed (c : Char) : Option PathState :=
    if c = '.' then some .afterDot else if c = '[' then some .bracket else none
  /-- Goes on behind a number. -/
  afterDigits (c : Char) : Option PathState :=
    if isPathSpace c then some .afterDigits else if c = ']' then some .closed else none

/-- Whether the characters behind a name lead to a part of its value. -/
def isPathTail (cs : List Char) : Bool :=
  match cs.foldlM PathState.next? .name with
  | some .name | some .closed => true
  | _ => false

/-- The field that a key sets. A path sets a part of a field, which makes it a table or a list. -/
def field (key : String) (v : Value) : String × Value :=
  let name := key.toList.takeWhile isNameChar
  let tail := key.toList.dropWhile isNameChar
  if name ≠ [] ∧ isPathTail tail then
    match tail with
    | '.' :: _ => (String.ofList name, .table)
    | '[' :: _ => (String.ofList name, .list)
    | _ => (key, v)
  else (key, v)

/-- The fields of the text of a settings file. A text without documents has none. -/
def fieldsOfText? (text : String) : Option (List (String × Value)) :=
  match Node.ofText? .lenient text with
  | some [] => some []
  | some [n] => ((Reading.fields n).run []).map fun r => r.1.map fun f => field f.1 f.2
  | _ => none

def asText (name : String) (v : Value) : Except SettingsError String :=
  match v.text? with
  | some s => .ok s
  | none => .error (.mismatch v .text name)

def asUser (name : String) (v : Value) : Except SettingsError UserId :=
  match v.whole? with
  | none => .error (.mismatch v .whole name)
  | some n =>
    match Text.Numeral.word? n with
    | some number => .ok ⟨number⟩
    | none => .error (.mismatch (.whole n) .word name)

/-- A truth value. A complaint shows a text as it is compared, in lowercase. -/
def asTruth (name : String) (v : Value) : Except SettingsError Bool :=
  match v.truth?, v with
  | some b, _ => .ok b
  | none, .text s => .error (.mismatch (.text (Text.Lowercase.text s)) .truth name)
  | none, v => .error (.mismatch v .truth name)

/-- The setting of a field if it is there; the last field of a name counts. -/
def setting? {α : Type} (fs : List (String × Value)) (name : String)
    (read : String → Value → Except SettingsError α) : Except SettingsError (Option α) :=
  match fs.reverse.lookup name with
  | some v => (read name v).map some
  | none => .ok none

/-- The settings of a table of fields. Only the state file must be there. -/
def ofFields (fs : List (String × Value)) : Except SettingsError Settings := do
  let stateFile ← setting? fs "state_file" asText
  let defaultUser ← setting? fs "default_user" asUser
  let debug ← setting? fs "debug" asTruth
  let useColors ← setting? fs "use_colors" asTruth
  match stateFile with
  | none => .error (.missing "state_file")
  | some path =>
    let unset := ofStateFile path
    return ⟨path, defaultUser.getD unset.defaultUser, debug.getD unset.debug,
      useColors.getD unset.useColors⟩

def ofText (text : String) : Except SettingsError Settings :=
  match fieldsOfText? text with
  | some fs => ofFields fs
  | none => .error .unreadable

end Overlays.Settings
