import HostLookup.Proofs.Name.Hosts
import HostLookup.Proofs.Stub.Lookup

/-!
Which hosts servers are asked for. A host that is no literal address is asked for by the name that
it spells, and a host that spells none is turned down before anything is done. Hosts that end in a
backslash escape from this: they spell no name, but the dot that is put behind them completes one.
-/
set_option autoImplicit false

namespace HostLookup.Stub

open DomainName

variable {s : Stub} {cx : Context} {network host : String} {family : Family} {name : DomainName}

/-- A host is asked for by the name that it spells, and not at all if it spells none. -/
structure Heeds (host : String) : Prop where
  name_eq : (ofHost? host).map Prod.snd = spelled? host
  asks : ∀ (s : Stub) (cx : Context) (network : String) (family : Family) (name : DomainName),
    Family.ofNetwork? network = some family → Address.ofString? host = none →
      spelled? host = some name →
        ∃ text, s.resolver cx network host = s.askServers cx family host ⟨text, name⟩
  denies : ∀ (s : Stub) (cx : Context) (network : String) (family : Family) (w : World),
    Family.ofNetwork? network = some family → Address.ofString? host = none →
      spelled? host = none →
        ∃ f : Failure, f.isNotFound = true ∧ f.isTemporary = false ∧
          s.resolver cx network host w = ⟨.returned (.error f), 0, []⟩

theorem resolver_eq_pure (hf : Family.ofNetwork? network = some family)
    (ha : Address.ofString? host = none) (hn : ofHost? host = none) :
    s.resolver cx network host = pure (.error (.ofHost host .notFound)) := by
  unfold resolver Family.ofNetwork Literal.answer? lookupName
  rw [hf, ha, hn]
  rfl

theorem heeds_of_name_eq (h : (ofHost? host).map Prod.snd = spelled? host) : Heeds host where
  name_eq := h
  asks s cx network family name hf ha hname := by
    rw [hname] at h
    obtain ⟨⟨text, _⟩, hn, rfl⟩ := Option.map_eq_some_iff.mp h
    exact ⟨text, resolver_eq_askServers hf ha hn⟩
  denies s cx network family w hf ha hname := by
    rw [hname, Option.map_eq_none_iff] at h
    refine ⟨.ofHost host .notFound, rfl, rfl, ?_⟩
    rw [resolver_eq_pure hf ha h]
    rfl

theorem ofHost?_of_isUnfinished (h : IsUnfinished host)
    (hname : ofString? (host.push '.') = some name) :
    ofHost? host = some (host.push '.', name) := by
  refine ofHost?_eq_some_iff.mpr ⟨⟨?_, ?_⟩, (dotted_of_endsOpen h.1).symm, hname⟩
  · rintro rfl
    cases h.1
  · rintro rfl
    cases h.1

/-- Hosts are asked for by the names that they spell just if they are not unfinished. Those that are
unfinished are asked for by what they spell with the dot that they escape. -/
theorem heeds_iff (host : String) :
    (Heeds host ↔ ¬ IsUnfinished host) ∧
      ∀ (s : Stub) (cx : Context) (network : String) (family : Family) (name : DomainName),
        Family.ofNetwork? network = some family → Address.ofString? host = none →
          endsOpen host.toList = true → ofString? (host.push '.') = some name →
            s.resolver cx network host = s.askServers cx family host ⟨host.push '.', name⟩ := by
  refine ⟨⟨fun h => map_ofHost?_eq_spelled?_iff.mp h.name_eq, fun h => ?_⟩, ?_⟩
  · exact heeds_of_name_eq (map_ofHost?_eq_spelled?_iff.mpr h)
  · intro s cx network family name hf ha hopen hname
    have hunfinished : IsUnfinished host := ⟨hopen, hname ▸ rfl⟩
    exact resolver_eq_askServers hf ha (ofHost?_of_isUnfinished hunfinished hname)

/-- The host `www\` spells no name, but a server is asked for the label `www.`, dot included. -/
theorem heeds_iff_backslash :
    let s := ofDialEnd (.failed (.of .connectionRefused))
    let report := s.resolver (.ofToken (.root 0)) "ip4" "www\\" .initial
    Heeds "www.example" ∧ ¬ Heeds "www\\" ∧ ofString? "www\\" = none ∧
      ofHost? "www\\" = some ("www\\.", ⟨[[119, 119, 119, 46]]⟩) ∧
      World.dialedBy report.events = [.of (.v4 .localhost) 53] := by
  have hfinished : ¬ IsUnfinished "www.example" := by decide +kernel
  have hunfinished : IsUnfinished "www\\" := by decide +kernel
  exact ⟨(heeds_iff "www.example").1.mpr hfinished,
    fun h => (heeds_iff "www\\").1.mp h hunfinished, by decide +kernel, by decide +kernel,
    by decide +kernel⟩

end HostLookup.Stub
