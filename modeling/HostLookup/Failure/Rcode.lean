/-!
Response codes: the low four bits of the second flag octet of a message.
-/
set_option autoImplicit false

namespace HostLookup

/-- A response code. -/
structure Rcode where
  code : Fin 16
  deriving DecidableEq, Repr

namespace Rcode

def noError : Rcode := ⟨0⟩
def serverFailure : Rcode := ⟨2⟩
def nameError : Rcode := ⟨3⟩

/-- The code in the low four bits of an octet or of a larger number. -/
def ofNat (n : Nat) : Rcode := ⟨Fin.ofNat 16 n⟩

/-- The mnemonics of the codes that have one, from code zero on. -/
def mnemonics : List String :=
  ["NOERROR", "FORMERR", "SERVFAIL", "NXDOMAIN", "NOTIMP", "REFUSED", "YXDOMAIN", "YXRRSET",
    "NXRRSET", "NOTAUTH", "NOTZONE"]

/-- The mnemonic of a code, or its number if it has none. -/
def text (r : Rcode) : String := mnemonics.getD r.code (Nat.repr r.code)

end Rcode

end HostLookup
