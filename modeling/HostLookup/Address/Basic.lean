import HostLookup.Octets

/-!
Network addresses. An IPv4 address has four octets and an IPv6 address eight groups of sixteen
bits; an endpoint adds a port and, for IPv6, the zone that the address is meaningful in.
-/
set_option autoImplicit false

namespace HostLookup

/-- An IPv4 address. -/
structure V4 where
  a : UInt8
  b : UInt8
  c : UInt8
  d : UInt8
  deriving DecidableEq, Repr

/-- An IPv6 address. -/
structure V6 where
  g0 : UInt16
  g1 : UInt16
  g2 : UInt16
  g3 : UInt16
  g4 : UInt16
  g5 : UInt16
  g6 : UInt16
  g7 : UInt16
  deriving DecidableEq, Repr

namespace V4

/-- The address `127.0.0.1`. -/
def localhost : V4 := ⟨127, 0, 0, 1⟩

def ofOctets? : Octets → Option V4
  | [a, b, c, d] => some ⟨a, b, c, d⟩
  | _ => none

def octets (v : V4) : Octets := [v.a, v.b, v.c, v.d]

@[simp] theorem ofOctets?_octets (v : V4) : ofOctets? v.octets = some v := rfl

end V4

namespace V6

def ofGroups? : List UInt16 → Option V6
  | [g0, g1, g2, g3, g4, g5, g6, g7] => some ⟨g0, g1, g2, g3, g4, g5, g6, g7⟩
  | _ => none

def groups (v : V6) : List UInt16 := [v.g0, v.g1, v.g2, v.g3, v.g4, v.g5, v.g6, v.g7]

def octets (v : V6) : Octets :=
  v.groups.flatMap fun g => [(splitWord g).1, (splitWord g).2]

def ofOctets? : Octets → Option V6
  | [a0, b0, a1, b1, a2, b2, a3, b3, a4, b4, a5, b5, a6, b6, a7, b7] =>
    some ⟨joinOctets a0 b0, joinOctets a1 b1, joinOctets a2 b2, joinOctets a3 b3,
      joinOctets a4 b4, joinOctets a5 b5, joinOctets a6 b6, joinOctets a7 b7⟩
  | _ => none

/-- The address read as one number of 128 bits. -/
def value (v : V6) : Nat := v.groups.foldl (fun n g => n * 65536 + g.toNat) 0

/-- The IPv6 form `::ffff:a.b.c.d` of an IPv4 address. -/
def ofV4 (v : V4) : V6 :=
  ⟨0, 0, 0, 0, 0, 0xffff, joinOctets v.a v.b, joinOctets v.c v.d⟩

/-- The IPv4 address that an address of the form `::ffff:a.b.c.d` stands for. -/
def toV4? (v : V6) : Option V4 :=
  if v.g0 = 0 ∧ v.g1 = 0 ∧ v.g2 = 0 ∧ v.g3 = 0 ∧ v.g4 = 0 ∧ v.g5 = 0xffff then
    some ⟨(splitWord v.g6).1, (splitWord v.g6).2, (splitWord v.g7).1, (splitWord v.g7).2⟩
  else none

@[simp] theorem ofGroups?_groups (v : V6) : ofGroups? v.groups = some v := rfl

@[simp] theorem length_groups (v : V6) : v.groups.length = 8 := rfl

end V6

/-- A network address of either family. -/
inductive Address where
  | v4 (address : V4)
  | v6 (address : V6)
  deriving DecidableEq, Repr

namespace Address

def isV4 : Address → Bool
  | v4 _ => true
  | v6 _ => false

/-- The address in IPv6 form. -/
def toV6 : Address → V6
  | v4 a => .ofV4 a
  | v6 a => a

end Address

/-- What a connection is made to. -/
inductive Endpoint where
  | v4 (address : V4) (port : UInt16)
  | v6 (address : V6) (port : UInt16) (zone : UInt32)
  deriving DecidableEq, Repr

namespace Endpoint

/-- The endpoint at a port of an address, in no particular zone. -/
def of : Address → UInt16 → Endpoint
  | .v4 a, port => .v4 a port
  | .v6 a, port => .v6 a port 0

def address : Endpoint → Address
  | v4 a _ => .v4 a
  | v6 a _ _ => .v6 a

def port : Endpoint → UInt16
  | v4 _ p => p
  | v6 _ p _ => p

@[simp] theorem address_of (a : Address) (port : UInt16) : (of a port).address = a := by
  cases a <;> rfl

@[simp] theorem port_of (a : Address) (port : UInt16) : (of a port).port = port := by
  cases a <;> rfl

end Endpoint

namespace V6

@[simp] theorem toV4?_ofV4 (v : V4) : (ofV4 v).toV4? = some v := by
  simp [ofV4, toV4?, splitWord_joinOctets]

@[simp] theorem ofOctets?_octets (v : V6) : ofOctets? v.octets = some v := by
  simp [octets, groups, ofOctets?, joinOctets_splitWord]

end V6

end HostLookup
