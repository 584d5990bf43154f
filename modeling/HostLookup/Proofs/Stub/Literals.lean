import HostLookup.Proofs.Address.RoundTrip
import HostLookup.Proofs.Search.Lookup
import HostLookup.Proofs.Stub.Lookup

/-!
Literal addresses. They are answered with themselves if they belong to the family that is asked for,
and turned down otherwise; IPv6 addresses that stand for an IPv4 address belong to both families.
All resolvers give this answer, at once and without asking anybody but each other.
-/
set_option autoImplicit false

namespace HostLookup

namespace Family

variable {f : Family} {a : Address} {network : String}

/-- The addresses of a family. -/
inductive TakesIn : Family → Address → Prop where
  | any (a : Address) : TakesIn any a
  | v4 (a : V4) : TakesIn v4 (.v4 a)
  | mapped (a : V4) : TakesIn v4 (.v6 (.ofV4 a))
  | v6 (a : V6) : TakesIn v6 (.v6 a)

theorem includes_iff : f.includes a = true ↔ f.TakesIn a := by
  constructor
  · intro h
    cases f with
    | any => exact .any a
    | v4 =>
      cases a with
      | v4 a => exact .v4 a
      | v6 a =>
        obtain ⟨b, hb⟩ := Option.isSome_iff_exists.mp h
        rw [V6.eq_ofV4_of_toV4? hb]
        exact .mapped b
    | v6 =>
      cases a with
      | v4 a => cases h
      | v6 a => exact .v6 a
  · intro h
    cases h with
    | mapped a => rw [includes, V6.toV4?_ofV4, Option.isSome_some]
    | any | v4 | v6 => rfl

theorem ofNetwork?_eq_some_iff : ofNetwork? network = some f ↔ network = f.network := by
  constructor
  · intro h
    unfold ofNetwork? at h
    split at h <;> cases h <;> rfl
  · rintro rfl
    exact ofNetwork?_network f

theorem ofNetwork?_eq_none_iff : ofNetwork? network = none ↔ ∀ f : Family, network ≠ f.network := by
  rw [Option.eq_none_iff_forall_ne_some]
  exact forall_congr' fun f => ofNetwork?_eq_some_iff.not

end Family

namespace Literal

variable {network host : String} {a : Address}

/-- A failure about a host that no server has a part in, and that lasts. -/
structure Lasts (host : String) (f : Failure) : Prop where
  name : f.name = host
  server : f.server = none
  temporary : f.isTemporary = false

theorem lasts_ofHost (host : String) (cause : Cause) : Lasts host (.ofHost host cause) :=
  ⟨rfl, rfl, rfl⟩

/-- What a lookup of a host that is a literal address comes to. -/
inductive Settles (network host : String) (a : Address) : Answer → Prop where
  | taken {family : Family} : network = family.network → family.TakesIn a →
      Settles network host a (.ok [a])
  | foreign {family : Family} {f : Failure} : network = family.network → ¬ family.TakesIn a →
      Lasts host f → f.cause = .notFound → Settles network host a (.error f)
  | unsupported {f : Failure} : (∀ family : Family, network ≠ family.network) →
      Lasts host f → f.cause = .unsupportedNetwork → Settles network host a (.error f)

theorem answer_of_network {family : Family} (h : network = family.network)
    (ha : Address.ofString? host = some a) : answer network host =
      if family.includes a then .ok [a] else .error (.ofHost host .notFound) := by
  have hanswer : answer network host =
      (answer? family host).getD (.error (.ofHost host .notFound)) := by
    rw [answer, Family.ofNetwork, Family.ofNetwork?_eq_some_iff.mpr h]
    rfl
  rw [hanswer, answer?, ha, Option.map_some, Option.getD_some, Family.accept]
  cases family.includes a <;> rfl

theorem answer_of_no_network (h : ∀ family : Family, network ≠ family.network) :
    answer network host = .error (.ofHost host .unsupportedNetwork) := by
  unfold answer Family.ofNetwork
  rw [Family.ofNetwork?_eq_none_iff.mpr h]
  rfl

theorem settles_answer (ha : Address.ofString? host = some a) :
    Settles network host a (answer network host) := by
  by_cases hnetwork : ∃ family : Family, network = family.network
  · obtain ⟨family, hfamily⟩ := hnetwork
    rw [answer_of_network hfamily ha]
    split
    · rename_i hincludes
      exact .taken hfamily (Family.includes_iff.mp hincludes)
    · rename_i hincludes
      exact .foreign hfamily (Family.includes_iff.not.mp hincludes) (lasts_ofHost _ _) rfl
  · have hno : ∀ family : Family, network ≠ family.network := not_exists.mp hnetwork
    rw [answer_of_no_network hno]
    exact .unsupported hno (lasts_ofHost _ _) rfl

theorem Settles.eq_singleton {addrs : List Address} (h : Settles network host a (.ok addrs)) :
    addrs = [a] := by
  cases h
  rfl

end Literal

namespace Stub

variable {s : Stub} {cx : Context} {network host : String} {a : Address} {w : World}

theorem resolver_literal (ha : Address.ofString? host = some a) :
    s.resolver cx network host = pure (Literal.answer network host) := by
  unfold resolver Literal.answer
  cases Family.ofNetwork network host with
  | error f => rfl
  | ok family =>
    unfold Literal.answer?
    rw [ha]
    rfl

end Stub

namespace Search

variable {s : Search} {cx : Context} {network host : String} {a : Address} {w : World}

theorem isComplete_literal (ha : Address.ofString? host = some a) : isComplete host = true :=
  isComplete_iff.mpr (.inr (.inl ⟨a, ha⟩))

/-- The inner resolver is asked for a literal address as it is. -/
theorem resolver_literal {family : Family} (hfamily : network = family.network)
    (ha : Address.ofString? host = some a) : s.resolver cx network host w =
      (s.inner cx network host w).behind 0 [⟨w.now, .asked network host⟩] := by
  have hcandidates : candidates s.list s.ndots host = [host] :=
    candidates_eq_singleton (.inr (isComplete_literal ha)) s.ndots
  rw [resolver_eq s (Family.ofNetwork?_eq_some_iff.mpr hfamily), hcandidates, tryAll_singleton,
    ask_apply]

theorem resolver_of_no_network (h : ∀ family : Family, network ≠ family.network) :
    s.resolver cx network host w =
      ⟨.returned (.error (.ofHost host .unsupportedNetwork)), 0, []⟩ := by
  unfold resolver Family.ofNetwork
  rw [Family.ofNetwork?_eq_none_iff.mpr h]
  rfl

end Search

namespace Stub

/-- A literal address is answered alike by the resolver for literal addresses, by a stub resolver,
and by any search list over one, whatever the configuration, the context and the world. None of them
takes any time, and all that happens is that the search list passes the question on. -/
theorem literals_answered {host : String} {a : Address} (ha : Address.ofString? host = some a)
    (s : Stub) (list : SearchList) (ndots : Nat) (cx : Context) (network : String) (w : World) :
    ∃ answer, Literal.Settles network host a answer ∧
      Literal.resolver cx network host w = ⟨.returned answer, 0, []⟩ ∧
      s.resolver cx network host w = ⟨.returned answer, 0, []⟩ ∧
      ∃ es, (Search.mk s.resolver list ndots).resolver cx network host w =
          ⟨.returned answer, 0, es⟩ ∧
        (∀ e ∈ es, e.deed = .asked network host) ∧ World.dialedBy es = [] ∧
        Trace.probes es = [] := by
  have hstub : s.resolver cx network host w =
      ⟨.returned (Literal.answer network host), 0, []⟩ := by
    rw [resolver_literal ha]
    rfl
  refine ⟨Literal.answer network host, Literal.settles_answer ha, rfl, hstub, ?_⟩
  by_cases hnetwork : ∃ family : Family, network = family.network
  · obtain ⟨family, hfamily⟩ := hnetwork
    refine ⟨[⟨w.now, .asked network host⟩], ?_, ?_, rfl, rfl⟩
    · refine (Search.resolver_literal hfamily ha).trans ?_
      exact congrArg (Report.behind 0 [⟨w.now, .asked network host⟩]) hstub
    · intro e he
      rw [List.mem_singleton.mp he]
  · have hno : ∀ family : Family, network ≠ family.network := not_exists.mp hnetwork
    refine ⟨[], ?_, List.forall_mem_nil _, rfl, rfl⟩
    rw [Search.resolver_of_no_network hno, Literal.answer_of_no_network hno]

/-- A mapped address is an IPv4 address, also to a lookup whose context is cancelled and over. -/
theorem literals_answered_mapped :
    let host := "::ffff:192.0.2.1"
    let a : Address := .v6 (.ofV4 ⟨192, 0, 2, 1⟩)
    let s := ofDialEnd (.failed (.of .connectionRefused))
    let cx : Context := ⟨some 0, .root 0⟩
    let w : World := { World.initial with now := 5, cancellations := [⟨0, 0⟩] }
    cx.isDone w.cancellations w.now = true ∧ Address.ofString? host = some a ∧
      Literal.Settles "ip4" host a (.ok [a]) ∧
      Literal.resolver cx "ip4" host w = ⟨.returned (.ok [a]), 0, []⟩ ∧
      s.resolver cx "ip4" host w = ⟨.returned (.ok [a]), 0, []⟩ ∧
      ∃ es, (Search.mk s.resolver ⟨["example.com"]⟩ 9).resolver cx "ip4" host w =
          ⟨.returned (.ok [a]), 0, es⟩ ∧ Trace.probes es = [] := by
  intro host a s cx w
  have ha : Address.ofString? host = some a := by decide +kernel
  obtain ⟨answer, hsettles, hliteral, hstub, es, hsearch, _, _, hprobes⟩ :=
    literals_answered ha s ⟨["example.com"]⟩ 9 cx "ip4" w
  have hip4 : "ip4" = Family.v4.network := rfl
  have hanswer : Literal.answer "ip4" host = .ok [a] :=
    (Literal.answer_of_network hip4 ha).trans (if_pos (by decide))
  have hreturned : Ending.returned (Literal.answer "ip4" host) = .returned answer :=
    congrArg Report.ending hliteral
  rw [hanswer] at hreturned
  cases hreturned
  exact ⟨by decide, ha, hsettles, hliteral, hstub, es, hsearch, hprobes⟩

end Stub

end HostLookup
