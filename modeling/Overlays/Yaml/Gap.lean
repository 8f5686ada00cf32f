import Overlays.Yaml.Token

/-!
What lies between two words of a scalar: blanks on one line, or line ends that are folded into a blank or into
fewer line ends. Texts are collected in reverse.
-/

set_option autoImplicit false
set_option relaxedAutoImplicit false

namespace Overlays.Yaml

/-- The space met since the last word: blanks, or a line end with the further ones behind it. -/
inductive Gap where
  | blanks (met : List Char)
  | folded (first : Option Char) (more : List Char)
deriving DecidableEq

namespace Gap

def none : Gap := .blanks []

/-- Whether nothing was met. -/
def isNone : Gap → Bool
  | .blanks [] => true
  | _ => false

def isFolded : Gap → Bool
  | .folded .. => true
  | .blanks _ => false

/-- Takes in one character of space: blanks behind a line end are dropped. -/
def push (g : Gap) (c : Char) : Gap :=
  match g with
  | .blanks met => if isBreak c then .folded (some c) [] else .blanks (c :: met)
  | .folded first more => if isBreak c then .folded first (c :: more) else .folded first more

/-- Puts the space before a text that is collected in reverse; a single line feed becomes a blank. -/
def flush (g : Gap) (collected : List Char) : List Char :=
  match g with
  | .blanks met => met ++ collected
  | .folded (some '\n') [] => ' ' :: collected
  | .folded (some '\n') more => more ++ collected
  | .folded first more => more ++ first.toList ++ collected

end Gap

end Overlays.Yaml
