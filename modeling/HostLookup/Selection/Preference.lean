import HostLookup.Selection.Policy
import HostLookup.Sorting.Stable

/-!
The order in which destinations should be tried: reachable ones first, then those whose scope and
label match their source's, then by precedence, scope and the length of the common beginning of
source and destination. Destinations that are as good as each other keep their order.
-/
set_option autoImplicit false

namespace HostLookup

/-- A destination and the source it would be reached from; there is none if it is unreachable. -/
structure Candidate where
  destination : Address
  source : Option Address
  deriving DecidableEq, Repr

/-- The length of the common beginning of two lists. -/
def agreement : List Bool → List Bool → Nat
  | a :: as, b :: bs => if a = b then agreement as bs + 1 else 0
  | _, _ => 0

/-- The bits of a group, the highest one first. -/
def groupBits (g : UInt16) : List Bool := (List.range 16).map fun i => g.toNat.testBit (15 - i)

/-- The bits of the half of the address that names the network. -/
def V6.networkBits (v : V6) : List Bool := [v.g0, v.g1, v.g2, v.g3].flatMap groupBits

namespace Candidate

/-- Prefers what has a property to what does not. -/
def preferring : Bool → Bool → Ordering
  | true, false => .lt
  | false, true => .gt
  | _, _ => .eq

/-- Prefers the longer common beginning of source and destination, between IPv6 addresses only. -/
def byAgreement (a s b t : Address) : Ordering :=
  match a, s, b, t with
  | .v6 a, .v6 s, .v6 b, .v6 t =>
    compare (agreement t.networkBits b.networkBits) (agreement s.networkBits a.networkBits)
  | _, _, _, _ => .eq

/-- Compares destination `a` with source `s` to destination `b` with source `t`. -/
def compareReachable (a s b t : Address) : Ordering :=
  (preferring (a.scope == s.scope) (b.scope == t.scope)).then <|
  (preferring (a.policy.label == s.policy.label) (b.policy.label == t.policy.label)).then <|
  (compare b.policy.precedence a.policy.precedence).then <|
  (compare a.scope b.scope).then <|
  byAgreement a s b t

/-- The first rule that tells two candidates apart decides; the preferred one is the lesser. -/
def compare (x y : Candidate) : Ordering :=
  match x.source, y.source with
  | some s, some t => compareReachable x.destination s y.destination t
  | some _, none => .lt
  | none, some _ => .gt
  | none, none => .eq

def isPreferred (x y : Candidate) : Bool := x.compare y == .lt

end Candidate

namespace Selection

variable {m : Type → Type} [Monad m]

/-- Asks for the source of each destination, in order. -/
def candidates (probe : Address → m (Option Address)) : List Address → m (List Candidate)
  | [] => pure []
  | a :: as => do
    let source ← probe a
    let rest ← candidates probe as
    return ⟨a, source⟩ :: rest

/-- Puts destinations in the order they should be tried, but gives up where comparing turns out to be
no order. A single one needs no source. -/
def preferred? (probe : Address → m (Option Address)) (as : List Address) :
    m (Option (List Address)) :=
  if as.length < 2 then pure (some as)
  else do
    let cs ← candidates probe as
    return (Sorting.stableSort? Candidate.isPreferred cs).map (List.map Candidate.destination)

end Selection

end HostLookup
