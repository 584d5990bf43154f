/-!
The types of the records that hold addresses.
-/
set_option autoImplicit false

namespace HostLookup

/-- The record types that hold addresses. -/
inductive RecordType where
  | a
  | aaaa
  deriving DecidableEq, Repr

namespace RecordType

def code : RecordType → UInt16
  | a => 1
  | aaaa => 28

def mnemonic : RecordType → String
  | a => "A"
  | aaaa => "AAAA"

end RecordType

end HostLookup
