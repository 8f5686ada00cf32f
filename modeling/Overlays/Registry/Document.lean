import Overlays.Registry.Basic
import Overlays.Text.Blank
import Overlays.Yaml.Document
import Overlays.Yaml.Outline

/-!
Registries as documents. Reading takes a document apart by the kind of value that each place calls for: a scalar of
any form is a text where a text is called for, a value that is not written is an empty mapping or sequence, unknown
fields are passed over, and a field may occur only once.
-/

set_option autoImplicit false
set_option relaxedAutoImplicit false

namespace Overlays.Registry

open Yaml

/-- What a reading step has at hand: the anchored values of the document. -/
abbrev Anchors := List (Nat × Node)

/-- A reading step. It counts down how many more references may be followed. -/
abbrev Decode (α : Type) := ReaderT Anchors (StateT Nat Option) α

namespace Decode

def refuse {α : Type} : Decode α := fun _ _ => none

def follow : Decode Unit := do
  match ← get with
  | 0 => refuse
  | n + 1 => set n

/-- The value itself, without its anchor. -/
def unanchored : Node → Node
  | .anchored _ n => n
  | n => n

def resolve (n : Node) : Decode Node :=
  match unanchored n with
  | .reference number => do
    follow
    match (← read).lookup number with
    | some target => return target
    | none => refuse
  | n => return n

/-- A text, which any scalar is. -/
def text (n : Node) : Decode String := do
  match ← resolve n with
  | .scalar s _ _ => return s
  | _ => refuse

/-- Whether a scalar can stand for something other than a text: plainly, or as a block under the tag for it. -/
def mayMean (expected : String) (style : Style) (tag : Option String) : Bool :=
  style == .plain || (style == .literal && tag == some expected)

def bool (n : Node) : Decode Bool := do
  match ← resolve n with
  | .scalar s style tag =>
    if mayMean Plain.boolTag style tag then
      match Plain.bool? s with
      | some b => return b
      | none => refuse
    else refuse
  | _ => refuse

def user (n : Node) : Decode UserId := do
  match ← resolve n with
  | .scalar s style tag =>
    if mayMean Plain.intTag style tag then
      match (Plain.integer? s.toList).bind Text.Numeral.word? with
      | some number => return ⟨number⟩
      | none => refuse
    else refuse
  | _ => refuse

/-- A text that may be missing: a plain word for no value, or nothing at all. -/
def optionalText (n : Node) : Decode (Option String) := do
  match ← resolve n with
  | .scalar s style tag =>
    if style ≠ .plain then return some s
    else if tag = some Plain.nullTag then
      if Plain.isNull s then return none else refuse
    else if tag.isSome then return some s
    else if s = "" ∨ Plain.isNull s then return none
    else return some s
  | _ => refuse

/-- The state of an overlay, as a word or as a tag of its own in front of nothing. -/
def state (n : Node) : Decode OverlayState := do
  match ← resolve n with
  | .scalar s style tag =>
    match (tag.getD "").toList with
    | '!' :: word =>
      if style = .plain ∧ (s = "" ∨ Plain.isNull s) then ofWord (String.ofList word) else refuse
    | _ => ofWord s
  | _ => refuse
where
  /-- The state of a word. -/
  ofWord (s : String) : Decode OverlayState :=
    match OverlayState.ofWord? s with
    | some state => return state
    | none => refuse

/-- The entries of a mapping; a value that is not written has none. -/
def entries (n : Node) : Decode (List (Node × Node)) := do
  match ← resolve n with
  | .mapping _ es => return es
  | .scalar "" .plain _ => return []
  | _ => refuse

/-- The items of a sequence; a value that is not written has none. -/
def items (n : Node) : Decode (List Node) := do
  match ← resolve n with
  | .sequence _ ns => return ns
  | .scalar "" .plain _ => return []
  | _ => refuse

/-- A mapping from keys to values; the last value of a key counts. -/
def map {κ α : Type} [Ord κ] [Std.TransOrd κ] (key : Node → Decode κ) (value : Node → Decode α)
    (n : Node) : Decode (SortedMap κ α) := do
  let pairs ← (← entries n).mapM fun e => do return (← key e.1, ← value e.2)
  return .ofList pairs

/-- The values of a record's fields by name. -/
structure Fields where
  byName : List (String × Node)

/-- The fields of a record that are known; each may occur only once. -/
def fields (known : List String) (n : Node) : Decode Fields := do
  let named ← (← entries n).mapM fun e => do return (← text e.1, e.2)
  let relevant := named.filter fun e => known.contains e.1
  if (relevant.map Prod.fst).Nodup then return ⟨relevant⟩ else refuse

def Fields.required {α : Type} (fs : Fields) (name : String) (value : Node → Decode α) : Decode α :=
  match fs.byName.lookup name with
  | some n => value n
  | none => refuse

/-- The value of a field, or another one if it is not there. -/
def Fields.optional {α : Type} (fs : Fields) (name : String) (absent : α) (value : Node → Decode α) :
    Decode α :=
  match fs.byName.lookup name with
  | some n => value n
  | none => return absent

def target (n : Node) : Decode Target := do
  let fs ← fields ["resources"] n
  return ⟨← fs.optional "resources" ∅ (map text text)⟩

/-- An overlay. It is disabled and may be changed unless its fields say otherwise. -/
def overlay (n : Node) : Decode Overlay := do
  let fs ← fields ["name", "target", "category", "state", "mutable", "resources"] n
  return {
    name := ← fs.required "name" text
    target := ← fs.required "target" text
    category := ← fs.optional "category" none optionalText
    state := ← fs.optional "state" .disabled state
    isMutable := ← fs.optional "mutable" true bool
    resources := ← fs.optional "resources" ∅ (map text text) }

def registry (n : Node) : Decode Registry := do
  let fs ← fields ["targets", "users"] n
  return {
    targets := ← fs.optional "targets" ∅ (map text target)
    users := ← fs.optional "users" ∅ (map user fun n => do (← items n).mapM overlay) }

end Decode

/-- The registry of a document, which may follow a hundred references for each of its marks. -/
def ofNode? (n : Node) : Option Registry :=
  ((Decode.registry n).run n.anchors |>.run (n.size * 100)).map Prod.fst

/-- The registry of the text of a state file. A blank text and one without documents hold the empty registry. -/
def ofText? (text : String) : Option Registry :=
  if Text.allBlank text then some empty
  else match Node.ofText? .strict text with
    | some [] => some empty
    | some [n] => ofNode? n
    | _ => none

def resourcesOutline (m : SortedMap String String) : Outline :=
  .mapping (m.entries.map fun e => (.ofText e.1, .scalar (.ofText e.2)))

def field (name : String) (o : Outline) : Phrase × Outline := (.bare name, o)

/-- The field for resources, left out when there are none. -/
def resourcesField (m : SortedMap String String) : List (Phrase × Outline) :=
  if m.isEmpty then [] else [field "resources" (resourcesOutline m)]

def targetOutline (t : Target) : Outline := .mapping (resourcesField t.resources)

/-- An overlay as it is written: all fields in a fixed order, without an absent category and without resources
when there are none. -/
def overlayOutline (o : Overlay) : Outline :=
  .mapping <|
    [field "name" (.scalar (.ofText o.name)), field "target" (.scalar (.ofText o.target))]
      ++ o.category.toList.map (fun c => field "category" (.scalar (.ofText c)))
      ++ [field "state" (.scalar (.bare o.state.word)),
        field "mutable" (.scalar (.bare (if o.isMutable then "true" else "false")))]
      ++ resourcesField o.resources

def outline (r : Registry) : Outline :=
  .mapping [
    field "targets" (.mapping (r.targets.entries.map fun e => (.ofText e.1, targetOutline e.2))),
    field "users" (.mapping (r.users.entries.map fun e =>
      (.bare e.1.text, .sequence (e.2.map overlayOutline))))]

/-- The text that is stored for a registry. -/
def toText (r : Registry) : String := r.outline.write

end Overlays.Registry
