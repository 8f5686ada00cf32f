set_option autoImplicit false
set_option relaxedAutoImplicit false

namespace Overlays

/-- The text before and after the first occurrence of a separator. -/
def splitAtFirst? (separator : Char) : List Char → Option (List Char × List Char)
  | [] => none
  | c :: cs =>
    if c = separator then some ([], cs)
    else (splitAtFirst? separator cs).map fun p => (c :: p.1, p.2)

/-- A resource of a package, under its type and its name; each of the three may be empty. -/
@[ext] structure ResourceName where
  package : String
  type : String
  name : String
deriving DecidableEq

/-- A text that is not a resource name. -/
structure MalformedResourceName where
  text : String
deriving DecidableEq

/-- The words of the complaint about a malformed resource name. -/
def MalformedResourceName.message (_ : MalformedResourceName) : String :=
  "bad resource name, doesn't match package:type/name"

namespace ResourceName

/-- The three parts of a one-line text: up to its first colon, from there to the next slash, and the rest. -/
def ofChars? (cs : List Char) : Option ResourceName :=
  if '\n' ∈ cs then none
  else do
    let (package, rest) ← splitAtFirst? ':' cs
    let (type, name) ← splitAtFirst? '/' rest
    return ⟨String.ofList package, String.ofList type, String.ofList name⟩

def parse (text : String) : Except MalformedResourceName ResourceName :=
  match ofChars? text.toList with
  | some resource => .ok resource
  | none => .error ⟨text⟩

/-- The part by which a package lists its resources, `type/name`. -/
def entry (r : ResourceName) : String := r.type ++ "/" ++ r.name

/-- The full text, `package:type/name`. -/
def text (r : ResourceName) : String := r.package ++ ":" ++ r.entry

end ResourceName

end Overlays
