import HostLookup.Address.Basic

/-!
Scopes and policies of addresses. The scope says how far an address reaches; the policy table gives
every address a precedence and a label, by the longest network in the table that it belongs to.
IPv4 addresses are treated like the IPv6 addresses that stand for them.
-/
set_option autoImplicit false

namespace HostLookup

namespace Scope

def linkLocal : Nat := 2
def siteLocal : Nat := 5
def global : Nat := 14

end Scope

/-- Loopback and link-local addresses reach no further than the link. -/
def V4.scope (v : V4) : Nat :=
  if v.a = 127 ∨ (v.a = 169 ∧ v.b = 254) then Scope.linkLocal else Scope.global

/-- The scope of an IPv6 address that stands for itself. -/
def V6.ownScope (v : V6) : Nat :=
  if v.g0.toNat / 256 = 0xff then v.g0.toNat % 16
  else if v.value = 1 ∨ v.g0.toNat / 64 = 0xfe80 / 64 then Scope.linkLocal
  else if v.g0.toNat / 64 = 0xfec0 / 64 then Scope.siteLocal
  else Scope.global

def V6.scope (v : V6) : Nat :=
  match v.toV4? with
  | some a => a.scope
  | none => v.ownScope

def Address.scope : Address → Nat
  | .v4 a => a.scope
  | .v6 a => a.scope

/-- The addresses of a network, and how they are treated. -/
structure Policy where
  network : V6
  /-- How many leading bits of the network's address its members share. -/
  length : Nat
  precedence : Nat
  label : Nat
  deriving DecidableEq, Repr

namespace Policy

/-- The number that the first `length` bits of an address make. -/
def leading (length : Nat) (v : V6) : Nat := v.value >>> (128 - length)

def contains (p : Policy) (v : V6) : Bool := leading p.length v == leading p.length p.network

/-- The policy of an address in no other network. -/
def fallback : Policy := ⟨⟨0, 0, 0, 0, 0, 0, 0, 0⟩, 0, 40, 1⟩

/-- Longer networks come first. -/
def table : List Policy :=
  [⟨⟨0, 0, 0, 0, 0, 0, 0, 1⟩, 128, 50, 0⟩,
    ⟨⟨0, 0, 0, 0, 0, 0xffff, 0, 0⟩, 96, 35, 4⟩,
    ⟨⟨0, 0, 0, 0, 0, 0, 0, 0⟩, 96, 1, 3⟩,
    ⟨⟨0x2001, 0, 0, 0, 0, 0, 0, 0⟩, 32, 5, 5⟩,
    ⟨⟨0x2002, 0, 0, 0, 0, 0, 0, 0⟩, 16, 30, 2⟩,
    ⟨⟨0x3ffe, 0, 0, 0, 0, 0, 0, 0⟩, 16, 1, 12⟩,
    ⟨⟨0xfec0, 0, 0, 0, 0, 0, 0, 0⟩, 10, 1, 11⟩,
    ⟨⟨0xfc00, 0, 0, 0, 0, 0, 0, 0⟩, 7, 3, 13⟩,
    fallback]

/-- The first policy in the table for an address. -/
def of (v : V6) : Policy := (table.find? fun p => p.contains v).getD fallback

end Policy

def Address.policy (a : Address) : Policy := .of a.toV6

end HostLookup
