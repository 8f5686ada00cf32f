import Overlays.Yaml.Node
import Overlays.Yaml.Quoting

/-!
Documents as they are written: block sequences and mappings, indented by two columns a level. A sequence stands at
the indentation of the key it belongs to.
-/

set_option autoImplicit false
set_option relaxedAutoImplicit false

namespace Overlays.Yaml

/-- A scalar together with the way of writing that is wished for. -/
structure Phrase where
  text : String
  style : Style
deriving DecidableEq, Inhabited

namespace Phrase

/-- A text, written so that it reads back as one. -/
def ofText (s : String) : Phrase := ⟨s, Quoting.wanted s⟩

def bare (s : String) : Phrase := ⟨s, .plain⟩

def settled (p : Phrase) : Style := Quoting.settle p.style p.text.toList

def write (p : Phrase) (indent : Nat) : List Char := Quoting.write indent p.settled p.text.toList

/-- The line end behind it, if it does not bring its own. -/
def lineEnd (p : Phrase) : List Char := if Quoting.endsLine p.settled p.text.toList then [] else ['\n']

/-- Whether it can stand before a colon without a question mark: on one line, and in at most 128 bytes. -/
def isSimpleKey (p : Phrase) : Bool := !Quoting.isMultiline p.text.toList && p.text.utf8ByteSize ≤ 128

end Phrase

/-- A document that is to be written. -/
inductive Outline where
  | scalar (phrase : Phrase)
  | sequence (items : List Outline)
  | mapping (entries : List (Phrase × Outline))
deriving Inhabited

namespace Outline

mutual

/-- What is written behind a key and its colon that stand at column `indent`. -/
def afterKey (indent : Nat) : Outline → List Char
  | .scalar p => ' ' :: p.write (indent + 2) ++ p.lineEnd
  | .sequence [] => " []\n".toList
  | .sequence items => '\n' :: writeItems indent false items
  | .mapping [] => " \x7b\x7d\n".toList
  | .mapping entries => '\n' :: writeEntries (indent + 2) false entries

/-- What is written behind a dash, or behind the colon of a key with a question mark, at column `indent`. -/
def afterMark (indent : Nat) : Outline → List Char
  | .scalar p => ' ' :: p.write (indent + 2) ++ p.lineEnd
  | .sequence [] => " []\n".toList
  | .sequence items => ' ' :: writeItems (indent + 2) true items
  | .mapping [] => " \x7b\x7d\n".toList
  | .mapping entries => ' ' :: writeEntries (indent + 2) true entries

/-- The items of a sequence whose dashes stand at column `indent`; the first may go on a line already begun. -/
def writeItems (indent : Nat) (isBegun : Bool) : List Outline → List Char
  | [] => []
  | o :: os =>
    (if isBegun then [] else Quoting.spaces indent) ++ '-' :: o.afterMark indent
      ++ writeItems indent false os

/-- The entries of a mapping whose keys stand at column `indent`; the first may go on a line already begun. -/
def writeEntries (indent : Nat) (isBegun : Bool) : List (Phrase × Outline) → List Char
  | [] => []
  | (k, o) :: es =>
    (if isBegun then [] else Quoting.spaces indent)
      ++ (if k.isSimpleKey then k.write (indent + 2) ++ ':' :: o.afterKey indent
        else '?' :: ' ' :: k.write (indent + 2) ++ k.lineEnd ++ Quoting.spaces indent
          ++ ':' :: o.afterMark indent)
      ++ writeEntries indent false es

end

def write : Outline → String
  | .scalar p => String.ofList (p.write 0 ++ p.lineEnd)
  | .sequence [] => "[]\n"
  | .sequence items => String.ofList (writeItems 0 false items)
  | .mapping [] => "\x7b\x7d\n"
  | .mapping entries => String.ofList (writeEntries 0 false entries)

mutual

/-- The values that a document has when it is read: each scalar in the way in which it was written. -/
def toNode : Outline → Node
  | .scalar p => .scalar p.text p.settled none
  | .sequence items => .sequence none (nodesOfItems items)
  | .mapping entries => .mapping none (nodesOfEntries entries)

def nodesOfItems : List Outline → List Node
  | [] => []
  | o :: os => o.toNode :: nodesOfItems os

def nodesOfEntries : List (Phrase × Outline) → List (Node × Node)
  | [] => []
  | (k, o) :: es => (.scalar k.text k.settled none, o.toNode) :: nodesOfEntries es

end

end Outline

end Overlays.Yaml
