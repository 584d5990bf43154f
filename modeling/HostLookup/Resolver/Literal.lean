import HostLookup.Activity.Basic
import HostLookup.Address.Reader
import HostLookup.Family

/-!
Resolvers answer lookups of hosts with addresses. The simplest one knows literal addresses only,
and nobody has to be asked for those.
-/
set_option autoImplicit false

namespace HostLookup

/-- What a lookup comes to: addresses in the order they should be tried. -/
abbrev Answer := Except Failure (List Address)

/-- Looks up a host, for the network it is given. -/
abbrev Resolver := Context → (network host : String) → Activity Answer

namespace Literal

/-- The answer for a host that is a literal address. -/
def answer? (family : Family) (host : String) : Option Answer :=
  (Address.ofString? host).map fun a =>
    match family.accept a with
    | some a => .ok [a]
    | none => .error (.ofHost host .notFound)

/-- The answer for a host that is expected to be a literal address. -/
def answer (network host : String) : Answer := do
  let family ← Family.ofNetwork network host
  (answer? family host).getD (.error (.ofHost host .notFound))

/-- Knows literal addresses only. -/
def resolver : Resolver := fun _ network host => pure (answer network host)

end Literal

end HostLookup
