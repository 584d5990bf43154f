import HostLookup.Address.Basic
import HostLookup.Message.Cursor
import HostLookup.Message.Type

/-!
Resource records: an owner, a type, a class, a time to live, and data. Records with the data of an
address of their type hold that address.
-/
set_option autoImplicit false

namespace HostLookup

structure Record where
  owner : DomainName
  type : UInt16
  cls : UInt16
  /-- The higher and the lower half of the time to live. -/
  ttl : UInt16 × UInt16
  data : Octets
  deriving DecidableEq, Repr

namespace Record

/-- The address in a record of an address type whose data has the right length. -/
def address? (r : Record) : Option Address :=
  if r.type = RecordType.a.code then (V4.ofOctets? r.data).map .v4
  else if r.type = RecordType.aaaa.code then (V6.ofOctets? r.data).map .v6
  else none

def read? (message : Octets) (c : Cursor) : Option (Record × Cursor) := do
  let (owner, c) ← c.name? message
  let (type, c) ← c.word?
  let (cls, c) ← c.word?
  let (ttlHigh, c) ← c.word?
  let (ttlLow, c) ← c.word?
  let (length, c) ← c.word?
  let (data, c) ← c.take? length.toNat
  return (⟨owner, type, cls, (ttlHigh, ttlLow), data⟩, c)

/-- Reads up to `n` records, and stops at the first one that cannot be read. -/
def readUpTo (message : Octets) : Nat → Cursor → List Record
  | 0, _ => []
  | n + 1, c =>
    match read? message c with
    | none => []
    | some (r, c) => r :: readUpTo message n c

end Record

end HostLookup
