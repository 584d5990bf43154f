import HostLookup.Failure.Basic
import HostLookup.Message.Type

/-!
Address families. A network name selects a family; a family says which record types are asked for,
in order, and which addresses belong to it.
-/
set_option autoImplicit false

namespace HostLookup

/-- The families that a lookup can be restricted to. -/
inductive Family where
  | any
  | v4
  | v6
  deriving DecidableEq, Repr

namespace Family

def network : Family → String
  | any => "ip"
  | v4 => "ip4"
  | v6 => "ip6"

def ofNetwork? : String → Option Family
  | "ip" => some any
  | "ip4" => some v4
  | "ip6" => some v6
  | _ => none

def recordTypes : Family → List RecordType
  | any => [.a, .aaaa]
  | v4 => [.a]
  | v6 => [.aaaa]

/-- IPv6 addresses that stand for an IPv4 address belong to both families. -/
def includes : Family → Address → Bool
  | any, _ => true
  | v4, .v4 _ => true
  | v4, .v6 a => a.toV4?.isSome
  | v6, .v6 _ => true
  | v6, .v4 _ => false

/-- The address itself, if it is of the family. -/
def accept (f : Family) (a : Address) : Option Address :=
  if f.includes a then some a else none

@[simp] theorem ofNetwork?_network (f : Family) : ofNetwork? f.network = some f := by
  cases f <;> rfl

theorem accept_eq_some_iff {f : Family} {a b : Address} :
    f.accept a = some b ↔ f.includes a = true ∧ a = b := by
  simp [accept]

/-- The family of a network name, or the failure of a lookup of `host` that names no family. -/
def ofNetwork (network host : String) : Except Failure Family :=
  match ofNetwork? network with
  | some f => .ok f
  | none => .error (.ofHost host .unsupportedNetwork)

end Family

end HostLookup
