import Overlays.Transaction.Request

set_option autoImplicit false
set_option relaxedAutoImplicit false

namespace Overlays

/-- Requests to be carried out in order, as one unit. -/
@[ext] structure Transaction where
  requests : List Request
deriving DecidableEq, Inhabited

namespace Transaction

def size (t : Transaction) : Nat := t.requests.length

def isEmpty (t : Transaction) : Bool := t.requests.isEmpty

def text (t : Transaction) : String :=
  "Transaction \x7b requests = [" ++ ", ".intercalate (t.requests.map Request.text) ++ "] \x7d"

end Transaction

/-- Requests that are being collected. -/
structure TransactionBuilder where
  requests : List Request
deriving DecidableEq, Inhabited

namespace TransactionBuilder

def empty : TransactionBuilder := ⟨[]⟩

def size (b : TransactionBuilder) : Nat := b.requests.length

/-- Whether nothing is collected yet. -/
def isEmpty (b : TransactionBuilder) : Bool := b.requests.isEmpty

/-- Adds a request to enable or disable a package behind the others. -/
def setEnabled (b : TransactionBuilder) (package : String) (enable : Bool) (user : UserId) :
    Except RequestError TransactionBuilder :=
  (Request.make (.ofFlag enable) package user).map fun r => ⟨b.requests ++ [r]⟩

def build (b : TransactionBuilder) : Transaction := ⟨b.requests⟩

end TransactionBuilder

end Overlays
