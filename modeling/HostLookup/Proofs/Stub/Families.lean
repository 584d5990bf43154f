import HostLookup.Proofs.Stub.Lookup

/-!
Which addresses a lookup brings. Literal addresses are checked against the family, but records are
not: the addresses are all those in the replies that report no error, whatever was asked for. So a
lookup keeps to its family exactly if the servers do.
-/
set_option autoImplicit false

namespace HostLookup.Stub

open Activity Servers

variable {s : Stub} {cx : Context} {network host : String} {w : World}

/-- The addresses are a literal of the family or, in another order, those in the replies. -/
theorem answer_cases {addrs : List Address}
    (h : (s.resolver cx network host w).ending = .returned (.ok addrs)) :
    (∃ family a, Family.ofNetwork? network = some family ∧ family.includes a = true ∧
        addrs = [a] ∧ (s.resolver cx network host w).events = []) ∨
      addrs.Perm (Trace.answered (s.resolver cx network host w).events) := by
  have hhandled := resolver_handled s cx network host
  generalize s.resolver cx network host = lookup at h hhandled
  cases hhandled with
  | @literal family a hf ha =>
    cases h
    exact Or.inl ⟨family, a, hf, ha, rfl, rfl⟩
  | failed cause => cases h
  | @asked family target hf =>
    right
    have hwalked := askServers_walked s cx family host target w
    generalize s.askServers cx family host target w = r at h hwalked
    cases hwalked with
    | @ended log answer e m es fs hs hended harranged hfs _ _ =>
      cases h
      cases harranged with
      | sorted _ hp =>
        dsimp only
        rw [Trace.answered_append, answered_asks hs, hfs.answered_eq_nil, List.append_nil]
        cases hended.verdict with
        | served _ _ hg => rwa [hg]
    | stalled => cases h
    | overflow => cases h

theorem answer_of_family_iff {family : Family} {addrs : List Address}
    (hf : Family.ofNetwork? network = some family)
    (h : (s.resolver cx network host w).ending = .returned (.ok addrs)) :
    (∀ a ∈ addrs, family.accept a = some a) ↔
      ∀ server reply, (server, reply) ∈ Trace.replies (s.resolver cx network host w).events →
        reply.header.rcode = .noError → ∀ a ∈ reply.addresses, family.accept a = some a := by
  rcases answer_cases h with ⟨family', a, hf', ha, rfl, hnone⟩ | hp
  · rw [hf'] at hf
    cases hf
    rw [hnone]
    constructor
    · intro _ server reply hr
      cases hr
    · intro _ b hb
      cases List.mem_singleton.mp hb
      exact Family.accept_eq_some_iff.mpr ⟨ha, rfl⟩
  · constructor
    · intro haccept server reply hr hok a ha
      exact haccept a (hp.mem_iff.mpr (Trace.mem_answered.mpr ⟨server, reply, hr, hok, ha⟩))
    · intro haccept a ha
      obtain ⟨server, reply, hr, hok, ha⟩ := Trace.mem_answered.mp (hp.mem_iff.mp ha)
      exact haccept server reply hr hok a ha

/-- A reply to a question for the IPv4 addresses of `example` that brings an IPv6 address too. -/
def strayReply : Octets :=
  [0, 0, 0x81, 0x80, 0, 1, 0, 2, 0, 0, 0, 0, 7, 101, 120, 97, 109, 112, 108, 101, 0, 0, 1, 0, 1,
    0xc0, 12, 0, 1, 0, 1, 0, 0, 14, 16, 0, 4, 192, 0, 2, 1,
    0xc0, 12, 0, 28, 0, 1, 0, 0, 14, 16, 0, 16,
    0x20, 1, 0xd, 0xb8, 0, 0, 0, 0, 0, 0, 0, 0, 0, 0, 0, 1]

/-- A stub resolver whose server sends the stray reply. -/
def straying : Stub :=
  ofDialEnd (.connected (.datagram ⟨fun os => .ok os.length, fun _ => [⟨0, .ok strayReply⟩]⟩))

theorem straying_answer :
    (straying.resolver (.ofToken (.root 0)) "ip4" "example" .initial).ending =
      .returned (.ok [.v4 ⟨192, 0, 2, 1⟩, .v6 ⟨0x2001, 0xdb8, 0, 0, 0, 0, 0, 1⟩]) := by
  have hnetwork : Family.ofNetwork? "ip4" = some .v4 := rfl
  have hliteral : Address.ofString? "example" = none := by decide +kernel
  have hname : DomainName.ofHost? "example" =
      some ("example.", ⟨[[101, 120, 97, 109, 112, 108, 101]]⟩) := by decide +kernel
  rw [resolver_eq_askServers hnetwork hliteral hname]
  cbv

theorem answer_of_family_iff_straying :
    Family.ofNetwork? "ip4" = some .v4 ∧
      (straying.resolver (.ofToken (.root 0)) "ip4" "example" .initial).ending =
        .returned (.ok [.v4 ⟨192, 0, 2, 1⟩, .v6 ⟨0x2001, 0xdb8, 0, 0, 0, 0, 0, 1⟩]) ∧
      Family.v4.accept (.v6 ⟨0x2001, 0xdb8, 0, 0, 0, 0, 0, 1⟩) = none ∧
      ((∀ a ∈ [.v4 ⟨192, 0, 2, 1⟩, .v6 ⟨0x2001, 0xdb8, 0, 0, 0, 0, 0, 1⟩],
          Family.v4.accept a = some a) ↔
        ∀ server reply, (server, reply) ∈ Trace.replies
            (straying.resolver (.ofToken (.root 0)) "ip4" "example" .initial).events →
          reply.header.rcode = .noError →
            ∀ a ∈ reply.addresses, Family.v4.accept a = some a) :=
  ⟨rfl, straying_answer, rfl, answer_of_family_iff rfl straying_answer⟩

end HostLookup.Stub
