import HostLookup.Proofs.Resolver.Laws
import HostLookup.Proofs.Stub.Lookup

/-!
Laws of lookups. Whatever a law says about single queries, it says about a lookup, too, if it is
kept in sequence and allows for sources to be asked for, for sorting to give up, and for questions
to be passed on.
-/
set_option autoImplicit false

namespace HostLookup

open Activity Servers

/-- Laws that putting addresses in order by their sources follows. -/
structure Sorts (source : Address → Option Address) (R : Law) : Prop extends Composes R where
  probes : ∀ {w es}, Selection.Probes es → R w (.returned ()) 0 es
  disorder : ∀ {w es as}, Selection.Probes es → Selection.arranged? source as = none →
    R w .disorder 0 es

/-- Laws that everything in a lookup besides its queries follows. -/
structure Admits (source : Address → Option Address) (R : Law) : Prop extends Sorts source R where
  asked : ∀ network name, Obeys R (record (.asked network name))

/-- Laws that cannot be broken in no time are among them. -/
theorem Admits.of_instant {source : Address → Option Address} {R : Law} (hR : Composes R)
    (h : ∀ w es, R w (.returned ()) 0 es) (h' : ∀ w es, R w .disorder 0 es) :
    Admits source R where
  toComposes := hR
  probes _ := h _ _
  disorder _ _ := h' _ _
  asked _ _ w := h w _

namespace Stub

variable {s : Stub} {R : Law} {cx : Context}

theorem conclude_obeys (hR : Sorts s.source R) (answer : Answer) : Obeys R (s.conclude answer) := by
  intro w
  obtain ⟨e, harranged⟩ := Selection.Arranged.exists_ending s.source answer
  obtain ⟨fs, hfs, hconclude⟩ := conclude_apply s harranged w
  rw [hconclude]
  cases harranged with
  | failure f => exact hR.probes hfs
  | sorted => exact hR.probes hfs
  | disorder hnone => exact hR.disorder hfs hnone

theorem askServers_obeys (hR : Sorts s.source R)
    (hq : ∀ target server type, Obeys R (s.query cx target server type)) (family : Family)
    (host : String) (target : Target) : Obeys R (s.askServers cx family host target) := by
  intro w
  rw [askServers_apply]
  exact Obeys.bind hR.toComposes (askAll_obeys hR.toComposes (hq target) _ _ _ _)
    (conclude_obeys hR) w

/-- A lookup by the servers alone passes no question on, so this does not have to be allowed. -/
theorem resolver_follows (hR : Sorts s.source R)
    (hq : ∀ target server type, Obeys R (s.query cx target server type)) (network host : String) :
    Obeys R (s.resolver cx network host) := by
  have hhandled := resolver_handled s cx network host
  generalize s.resolver cx network host = lookup at hhandled
  cases hhandled with
  | literal => exact .pure hR.toComposes _
  | failed cause => exact .pure hR.toComposes _
  | asked target _ => exact askServers_obeys hR hq _ host target

theorem resolver_obeys (hR : Admits s.source R)
    (hq : ∀ target server type, Obeys R (s.query cx target server type)) (network host : String) :
    Obeys R (s.resolver cx network host) :=
  resolver_follows hR.toSorts hq network host

theorem search_obeys (hR : Admits s.source R)
    (hq : ∀ target server type, Obeys R (s.query cx target server type)) (network host : String) :
    Obeys R (s.search.resolver cx network host) := by
  have hask : ∀ name, Obeys R (s.search.ask cx network name) := fun name =>
    .bind hR.toComposes (hR.asked network name) fun _ => resolver_obeys hR hq network name
  have hdone : Obeys R (Activity.isDone cx) := fun w => hR.nothing w
  unfold Search.resolver
  split
  · exact .pure hR.toComposes _
  · exact Search.tryAll_obeys hR.toComposes hask hdone _ _ _

end Stub

end HostLookup
