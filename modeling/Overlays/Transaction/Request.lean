import Overlays.Text.Numeral
import Overlays.User

/-!
Requests to enable or disable one overlay package for one user. The kind of a request is a code word; two codes
are known, and any other is kept as it came.
-/

set_option autoImplicit false
set_option relaxedAutoImplicit false

namespace Overlays

open Text

/-- What a request can ask for. -/
inductive RequestType where
  | setEnabled
  | setDisabled
deriving DecidableEq, Inhabited

namespace RequestType

def code : RequestType → Int32
  | .setEnabled => 0
  | .setDisabled => 1

def label : RequestType → String
  | .setEnabled => "SET_ENABLED"
  | .setDisabled => "SET_DISABLED"

/-- Enabling or disabling, as the flag says. -/
def ofFlag (enable : Bool) : RequestType := if enable then .setEnabled else .setDisabled

end RequestType

/-- The kind of a request, known by its code word. -/
structure RequestKind where
  code : Int32
deriving DecidableEq, Inhabited

namespace RequestKind

def ofType (t : RequestType) : RequestKind := ⟨t.code⟩

/-- The request type of a kind, if its code is one of the known ones. -/
def known? (k : RequestKind) : Option RequestType :=
  if k.code = RequestType.setEnabled.code then some .setEnabled
  else if k.code = RequestType.setDisabled.code then some .setDisabled
  else none

/-- The label of a known kind, or the code of one that is not known. -/
def label (k : RequestKind) : String :=
  match k.known? with
  | some t => t.label
  | none => "UNKNOWN(" ++ Numeral.intText k.code.toInt ++ ")"

/-- The code as an unsigned word in base sixteen, with at least two digits. -/
def hexText (k : RequestKind) : String :=
  let digits := Nat.toDigits 16 k.code.toUInt32.toNat
  "0x" ++ String.ofList (List.replicate (2 - digits.length) '0' ++ digits)

end RequestKind

/-- A request of some kind about one overlay package of one user. -/
structure Request where
  kind : RequestKind
  package : String
  user : UserId
  package_ne : package ≠ ""
deriving DecidableEq

/-- Why a request cannot be made. -/
inductive RequestError where
  | emptyPackage
deriving DecidableEq

/-- The words of a complaint about the arguments of a request. -/
def RequestError.message : RequestError → String
  | .emptyPackage => "invalid argument: package name must not be empty"

namespace Request

/-- A request of a kind, refused when the package name is empty. -/
def ofKind? (kind : RequestKind) (package : String) (user : UserId) : Option Request :=
  if h : package = "" then none else some ⟨kind, package, user, h⟩

def make (type : RequestType) (package : String) (user : UserId) : Except RequestError Request :=
  match ofKind? (.ofType type) package user with
  | some r => .ok r
  | none => .error .emptyPackage

def text (r : Request) : String :=
  "Request\x7btype=" ++ r.kind.hexText ++ " (" ++ r.kind.label ++ "), packageName=" ++ r.package
    ++ ", userId=" ++ r.user.text ++ "\x7d"

end Request

end Overlays
