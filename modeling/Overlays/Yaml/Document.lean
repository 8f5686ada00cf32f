import Overlays.Yaml.Node
import Overlays.Yaml.Scanner

/-!
From the tokens of a text to the values of its documents. Every step takes the tokens that are left and gives
what it read with the tokens behind it.
-/

set_option autoImplicit false
set_option relaxedAutoImplicit false

namespace Overlays.Yaml

/-- What is left to read, and the names that were given to anchors and tags before. -/
structure Reading where
  tokens : List Token
  /-- The number given last to each anchor name, the latest name first. -/
  names : List (String × Nat)
  /-- What the handles of tags stand for. -/
  handles : List (String × String)

/-- A step of reading; nothing if the text is bad. -/
abbrev Compose (α : Type) := StateT Reading Option α

namespace Compose

/-- The next token, which stays where it is. -/
def peek : Compose (Option Token) := do return (← get).tokens.head?

def skip : Compose Unit := modify fun r => { r with tokens := r.tokens.tail }

def refuse {α : Type} : Compose α := StateT.lift none

def newAnchor (name : String) : Compose Nat := do
  let r ← get
  let number := r.names.length
  set { r with names := (name, number) :: r.names }
  return number

def anchorNumber (name : String) : Compose Nat := do
  match (← get).names.lookup name with
  | some number => return number
  | none => refuse

def fullTag (handle suffix : String) : Compose String := do
  if handle = "" then return suffix
  match (← get).handles.lookup handle with
  | some lead => return lead ++ suffix
  | none => refuse

/-- The anchor and the tag before a value, in either order. -/
def properties : Compose (Option String × Option String) := do
  match ← peek with
  | some (.anchor name) =>
    skip
    match ← peek with
    | some (.tag handle suffix) =>
      skip
      return (some name, some (← fullTag handle suffix))
    | _ => return (some name, none)
  | some (.tag handle suffix) =>
    skip
    match ← peek with
    | some (.anchor name) =>
      skip
      return (some name, some (← fullTag handle suffix))
    | _ => return (none, some (← fullTag handle suffix))
  | _ => return (none, none)

def nextIs (p : Token → Bool) : Compose Bool := do
  match ← peek with
  | some t => return p t
  | none => return false

/-- Tokens before which a value of a block mapping is absent. -/
def endsBlockValue : Token → Bool
  | .key | .value | .blockEnd => true
  | _ => false

/-- Tokens before which an item of a block sequence is absent. -/
def endsBlockItem : Token → Bool
  | .blockEntry | .blockEnd => true
  | _ => false

/-- Tokens before which an item of a block sequence is absent that stands at the indentation of its key. -/
def endsIndentlessItem : Token → Bool
  | .blockEntry | .key | .value | .blockEnd => true
  | _ => false

/-- Tokens before which a value in a flow sequence is absent. -/
def endsFlowItem : Token → Bool
  | .value | .flowEntry | .flowSequenceEnd => true
  | _ => false

/-- Tokens before which a value in a flow mapping is absent. -/
def endsFlowValue : Token → Bool
  | .value | .flowEntry | .flowMappingEnd => true
  | _ => false

mutual

/-- The next value. Block collections may stand here if `isBlock`; a block sequence may stand at the
indentation of its key if `isIndentless`. -/
def node (fuel : Nat) (isBlock isIndentless : Bool) : Compose Node :=
  match fuel with
  | 0 => refuse
  | fuel + 1 => do
    if let some (.reference name) ← peek then
      skip
      return .reference (← anchorNumber name)
    let (anchor, tag) ← properties
    match anchor with
    | none => content fuel isBlock isIndentless false tag
    | some name =>
      let number ← newAnchor name
      return .anchored number (← content fuel isBlock isIndentless true tag)

def content (fuel : Nat) (isBlock isIndentless isAnchored : Bool) (tag : Option String) : Compose Node :=
  match fuel with
  | 0 => refuse
  | fuel + 1 => do
    match ← peek with
    | some (.scalar text style) =>
      skip
      return .scalar text style (if tag = some "!" then none else tag)
    | some .flowSequenceStart =>
      skip
      return .sequence tag (← flowItems fuel true)
    | some .flowMappingStart =>
      skip
      return .mapping tag (← flowEntries fuel true)
    | some .blockSequenceStart =>
      if isBlock then
        skip
        return .sequence tag (← blockItems fuel)
      else absentIf (isAnchored || tag.isSome) tag
    | some .blockMappingStart =>
      if isBlock then
        skip
        return .mapping tag (← blockEntries fuel)
      else absentIf (isAnchored || tag.isSome) tag
    | some .blockEntry =>
      if isIndentless then return .sequence tag (← indentlessItems fuel)
      else absentIf (isAnchored || tag.isSome) tag
    | _ => absentIf (isAnchored || tag.isSome) tag

/-- A value that is not written, where an anchor or a tag stands for one. -/
def absentIf (isAllowed : Bool) (tag : Option String) : Compose Node :=
  if isAllowed then return .scalar "" .plain tag else refuse

/-- A value, or an absent one before certain tokens. -/
def nodeUnless (fuel : Nat) (isBlock isIndentless : Bool) (ends : Token → Bool) : Compose Node :=
  match fuel with
  | 0 => refuse
  | fuel + 1 => do
    if ← nextIs ends then return .absent else node fuel isBlock isIndentless

/-- The items of a block sequence, up to its end. -/
def blockItems (fuel : Nat) : Compose (List Node) :=
  match fuel with
  | 0 => refuse
  | fuel + 1 => do
    match ← peek with
    | some .blockEntry =>
      skip
      let n ← nodeUnless fuel true false endsBlockItem
      return n :: (← blockItems fuel)
    | some .blockEnd =>
      skip
      return []
    | _ => refuse

/-- The items of a block sequence at the indentation of its key. -/
def indentlessItems (fuel : Nat) : Compose (List Node) :=
  match fuel with
  | 0 => refuse
  | fuel + 1 => do
    match ← peek with
    | some .blockEntry =>
      skip
      let n ← nodeUnless fuel true false endsIndentlessItem
      return n :: (← indentlessItems fuel)
    | _ => return []

/-- The entries of a block mapping, up to its end. -/
def blockEntries (fuel : Nat) : Compose (List (Node × Node)) :=
  match fuel with
  | 0 => refuse
  | fuel + 1 => do
    match ← peek with
    | some .key =>
      skip
      let k ← nodeUnless fuel true true endsBlockValue
      let v ← valueUnless fuel true true endsBlockValue
      return (k, v) :: (← blockEntries fuel)
    | some .blockEnd =>
      skip
      return []
    | _ => refuse

/-- The value of an entry, which is absent when no colon stands here. -/
def valueUnless (fuel : Nat) (isBlock isIndentless : Bool) (ends : Token → Bool) : Compose Node :=
  match fuel with
  | 0 => refuse
  | fuel + 1 => do
    match ← peek with
    | some .value =>
      skip
      nodeUnless fuel isBlock isIndentless ends
    | _ => return .absent

/-- The items of a flow sequence, up to its end; a comma stands before every item but the first. -/
def flowItems (fuel : Nat) (isFirst : Bool) : Compose (List Node) :=
  match fuel with
  | 0 => refuse
  | fuel + 1 => do
    if ← nextIs (· = .flowSequenceEnd) then
      skip
      return []
    if !isFirst then
      if ← nextIs (· = .flowEntry) then skip else refuse
    match ← peek with
    | some .flowSequenceEnd =>
      skip
      return []
    | some .key =>
      skip
      let k ← soleKey fuel
      let v ← valueUnless fuel false false fun t => t = .flowEntry || t = .flowSequenceEnd
      return .mapping none [(k, v)] :: (← flowItems fuel false)
    | _ =>
      let n ← node fuel false false
      return n :: (← flowItems fuel false)

/-- The key of a mapping of one entry in a flow sequence. An absent key takes the token behind it along. -/
def soleKey (fuel : Nat) : Compose Node :=
  match fuel with
  | 0 => refuse
  | fuel + 1 => do
    if ← nextIs endsFlowItem then
      skip
      return .absent
    else node fuel false false

/-- The entries of a flow mapping, up to its end; a comma stands before every entry but the first. -/
def flowEntries (fuel : Nat) (isFirst : Bool) : Compose (List (Node × Node)) :=
  match fuel with
  | 0 => refuse
  | fuel + 1 => do
    if ← nextIs (· = .flowMappingEnd) then
      skip
      return []
    if !isFirst then
      if ← nextIs (· = .flowEntry) then skip else refuse
    match ← peek with
    | some .flowMappingEnd =>
      skip
      return []
    | some .key =>
      skip
      let k ← nodeUnless fuel false false endsFlowValue
      let v ← valueUnless fuel false false fun t => t = .flowEntry || t = .flowMappingEnd
      return (k, v) :: (← flowEntries fuel false)
    | _ =>
      let k ← node fuel false false
      return (k, .absent) :: (← flowEntries fuel false)

end

/-- What handles of tags stand for when no directive says so. -/
def standardHandles : List (String × String) := [("!", "!"), ("!!", "tag:yaml.org,2002:")]

/-- The directives before a document, with whether the version and which handles were declared. -/
def directives (fuel : Nat) (hasVersion : Bool) (declared : List (String × String)) :
    Compose (List (String × String)) :=
  match fuel with
  | 0 => refuse
  | fuel + 1 => do
    match ← peek with
    | some (.versionDirective major minor) =>
      skip
      if hasVersion || major ≠ 1 || (minor ≠ 1 && minor ≠ 2) then refuse
      directives fuel true declared
    | some (.tagDirective handle lead) =>
      skip
      if (declared.lookup handle).isSome then refuse
      directives fuel hasVersion ((handle, lead) :: declared)
    | some .reservedDirective =>
      skip
      directives fuel hasVersion declared
    | _ => return declared

/-- Tokens before which the whole content of a document is absent. -/
def endsDocument : Token → Bool
  | .versionDirective .. | .tagDirective .. | .reservedDirective | .documentStart | .documentEnd => true
  | _ => false

def skipDocumentEnds : Compose Unit :=
  modify fun r => { r with tokens := r.tokens.dropWhile (· = .documentEnd) }

/-- A document that begins with directives or with the mark that starts one. -/
def markedDocument (fuel : Nat) : Compose Node := do
  let declared ← directives fuel false []
  modify fun r => { r with handles := declared ++ standardHandles, names := [] }
  if ← nextIs (· = .documentStart) then skip else refuse
  match ← peek with
  | none => return .absent
  | some t => if endsDocument t then return .absent else node fuel true false

/-- The documents behind the first one. -/
def documents (fuel : Nat) : Compose (List Node) :=
  match fuel with
  | 0 => refuse
  | fuel + 1 => do
    skipDocumentEnds
    match ← peek with
    | none => return []
    | some _ =>
      let n ← markedDocument fuel
      return n :: (← documents fuel)

/-- All documents; the first one may stand without a mark. -/
def allDocuments (fuel : Nat) : Compose (List Node) := do
  match ← peek with
  | none => return []
  | some t =>
    let isMarked := match t with
      | .versionDirective .. | .tagDirective .. | .reservedDirective | .documentStart => true
      | _ => false
    let n ← if isMarked then markedDocument fuel else node fuel true false
    return n :: (← documents fuel)

end Compose

/-- The documents of a text; nothing if the text is bad. A token is met by at most four steps. -/
def Node.ofText? (d : Dialect) (text : String) : Option (List Node) := do
  let scanned ← Token.scan d text.toList
  let tokens := if d.isLenient then scanned.dropWhile (· = .documentEnd) else scanned
  let (documents, _) ← Compose.allDocuments (4 * tokens.length + 8)
    |>.run ⟨tokens, [], Compose.standardHandles⟩
  return documents

end Overlays.Yaml
