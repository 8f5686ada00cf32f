import Overlays.Text.Numeral

set_option autoImplicit false
set_option relaxedAutoImplicit false

namespace Overlays

open Text

/-- The number of a user. -/
@[ext] structure UserId where
  number : Int32
deriving DecidableEq, Inhabited

namespace UserId

/-- The user of the system itself, who is meant when nothing else is said. -/
def system : UserId := ⟨0⟩

instance : Ord UserId := ⟨fun a b => compare a.number b.number⟩

instance : Std.TransOrd UserId where
  eq_swap := Int32.instTransOrd.eq_swap
  isLE_trans := Int32.instTransOrd.isLE_trans

instance : Std.LawfulEqOrd UserId where
  compare_self := Int32.instLawfulEqOrd.compare_self
  eq_of_compare h := UserId.ext (Int32.instLawfulEqOrd.eq_of_compare h)

def text (u : UserId) : String := Numeral.intText u.number.toInt

end UserId

/-- What stands for a user on a command line: a number, or the user who is current. -/
inductive UserArg where
  | current
  | id (user : UserId)
deriving DecidableEq, Inhabited

/-- A word that names no user. -/
structure BadUserNumber where
  word : String
deriving DecidableEq

/-- The words of the complaint about a bad user number. -/
def BadUserNumber.message (e : BadUserNumber) : String := "Bad user number: " ++ e.word

namespace UserArg

/-- The number written by `cs` as a user, if a signed 32-bit word holds it and it is not negative. -/
def number? (cs : List Char) : Option UserId :=
  (Numeral.integer? 10 cs).bind fun n =>
    if 0 ≤ n then (Numeral.word? n).map UserId.mk else none

/-- Reads `current`, its short form `cur`, or a number that is not negative. -/
def parse (word : String) : Except BadUserNumber UserArg :=
  if word = "current" ∨ word = "cur" then .ok .current
  else match number? word.toList with
    | some user => .ok (.id user)
    | none => .error ⟨word⟩

/-- The user who is meant, given who is current. -/
def resolve (current : UserId) : UserArg → UserId
  | .current => current
  | .id user => user

end UserArg

end Overlays
