import Overlays.Yaml.Token

set_option autoImplicit false
set_option relaxedAutoImplicit false

namespace Overlays.Yaml

/-- A value of a document, as it is written there. -/
inductive Node where
  | scalar (text : String) (style : Style) (tag : Option String)
  | sequence (tag : Option String) (items : List Node)
  | mapping (tag : Option String) (entries : List (Node × Node))
  | anchored (number : Nat) (node : Node)
  | reference (number : Nat)
deriving Inhabited

namespace Node

def absent : Node := .scalar "" .plain none

mutual

/-- The anchored values in a node, by number, in the order in which they begin. -/
def anchors : Node → List (Nat × Node)
  | .scalar .. => []
  | .reference _ => []
  | .anchored number node => (number, node) :: node.anchors
  | .sequence _ items => anchorsOfItems items
  | .mapping _ entries => anchorsOfEntries entries

def anchorsOfItems : List Node → List (Nat × Node)
  | [] => []
  | n :: ns => n.anchors ++ anchorsOfItems ns

def anchorsOfEntries : List (Node × Node) → List (Nat × Node)
  | [] => []
  | (k, v) :: es => k.anchors ++ v.anchors ++ anchorsOfEntries es

end

mutual

/-- The number of marks that a node consists of: one for a scalar or a reference, two around a collection. -/
def size : Node → Nat
  | .scalar .. => 1
  | .reference _ => 1
  | .anchored _ node => node.size
  | .sequence _ items => 2 + sizeOfItems items
  | .mapping _ entries => 2 + sizeOfEntries entries

def sizeOfItems : List Node → Nat
  | [] => 0
  | n :: ns => n.size + sizeOfItems ns

def sizeOfEntries : List (Node × Node) → Nat
  | [] => 0
  | (k, v) :: es => k.size + v.size + sizeOfEntries es

end

end Node

end Overlays.Yaml
