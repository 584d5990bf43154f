import HostLookup.Proofs.Config.Bounds
import HostLookup.Proofs.Query.Range
import HostLookup.Proofs.Stub.Laws

/-!
Lookups that leave the clock's range. A configuration's text may give any number of 64 bits as the
seconds that a query may take, and the clock goes half as far. A lookup leaves the clock's range
just if it begins a query at an instant from which that time reaches too far. There are other ways
to end without an answer: it may wait for ever, or give up sorting the addresses that it found.
-/
set_option autoImplicit false

namespace HostLookup

open Activity Text

theorem not_oversteps_of_probes {timeout : Nat} {es : List Event} (h : Selection.Probes es) :
    ¬ ∃ x ∈ es, x.Oversteps timeout := by
  rintro ⟨x, hx, ⟨server, type, hqueried⟩, _⟩
  exact absurd hqueried (h.deed_ne hx nofun)

theorem admits_leavesRange (source : Address → Option Address) (timeout : Nat) :
    Admits source (LeavesRange timeout) where
  toComposes := leavesRange_composes timeout
  probes h := iff_of_false nofun (not_oversteps_of_probes h)
  disorder h _ := iff_of_false nofun (not_oversteps_of_probes h)
  asked network name w := by
    constructor
    · exact nofun
    · rintro ⟨x, hx, ⟨server, type, hqueried⟩, _⟩
      cases List.mem_singleton.mp hx
      cases hqueried

namespace Stub

theorem query_leavesRange (s : Stub) (cx : Context) (target : Target) (server : Server)
    (type : RecordType) :
    Obeys (LeavesRange s.config.timeout) (s.query cx target server type) := by
  intro w
  rw [query_apply]
  exact Query.run_leavesRange _ _ _ cx target server type w

theorem status_eq_overflow_iff {α : Type} {e : Ending α} :
    e.status = .overflow ↔ e = .overflow := by
  cases e with
  | returned a => exact ⟨nofun, nofun⟩
  | stalled => exact ⟨nofun, nofun⟩
  | overflow => exact ⟨fun _ => rfl, fun _ => rfl⟩
  | disorder => exact ⟨nofun, nofun⟩

/-- A query is begun at an instant from which so many seconds reach beyond the clock's range. -/
def BeginsTooLate (seconds : Nat) (r : Report Answer) : Prop :=
  ∃ x ∈ r.events, x.Oversteps (seconds * 1000)

/-- Under a configuration that was read from a text, a lookup leaves the clock's range just if it
begins a query so late that the configured seconds reach beyond it; so does a lookup by the search
list. There is no other bound on the seconds than that of numbers in a text. -/
theorem lookups_overflow_iff {s : Stub} {text : List Char}
    (h : Config.initial.read (encode text) = s.config.done) :
    ∃ seconds < Config.valueBound, s.config.timeout = seconds * 1000 ∧
      ∀ cx network host w,
        ((s.resolver cx network host w).ending = .overflow ↔
          BeginsTooLate seconds (s.resolver cx network host w)) ∧
        ((s.search.resolver cx network host w).ending = .overflow ↔
          BeginsTooLate seconds (s.search.resolver cx network host w)) := by
  obtain ⟨seconds, hlt, hseconds⟩ := (Config.bounded_initial.read h).timeout
  refine ⟨seconds, hlt, hseconds, ?_⟩
  intro cx network host w
  have hq : ∀ target server type,
      Obeys (LeavesRange s.config.timeout) (s.query cx target server type) :=
    fun target server type => query_leavesRange s cx target server type
  have hresolver := resolver_obeys (admits_leavesRange s.source _) hq network host w
  have hsearch := search_obeys (admits_leavesRange s.source _) hq network host w
  rw [LeavesRange, status_eq_overflow_iff, hseconds] at hresolver hsearch
  exact ⟨hresolver, hsearch⟩

/-- A stub resolver whose queries may take as long as a text can say. -/
def patient : Stub :=
  let s := ofDialEnd .never
  { s with config := { s.config with timeout := 18446744073709551615 * 1000 } }

/-- The text of its configuration. -/
def patientText : List Char :=
  "nameserver 127.0.0.1\noptions timeout:18446744073709551615\n".toList

theorem patient_overflow :
    (patient.resolver (.ofToken (.root 0)) "ip" "example" .initial).ending = .overflow := by
  have hnetwork : Family.ofNetwork? "ip" = some .any := rfl
  have hliteral : Address.ofString? "example" = none := by decide +kernel
  have hname : DomainName.ofHost? "example" =
      some ("example.", ⟨[[101, 120, 97, 109, 112, 108, 101]]⟩) := by decide +kernel
  rw [resolver_eq_askServers hnetwork hliteral hname]
  cbv

theorem lookups_overflow_iff_patient :
    Config.initial.read (encode patientText) = patient.config.done ∧
      (patient.resolver (.ofToken (.root 0)) "ip" "example" .initial).ending = .overflow ∧
      ∃ seconds < Config.valueBound, patient.config.timeout = seconds * 1000 ∧
        ∀ cx network host w,
          ((patient.resolver cx network host w).ending = .overflow ↔
            BeginsTooLate seconds (patient.resolver cx network host w)) ∧
          ((patient.search.resolver cx network host w).ending = .overflow ↔
            BeginsTooLate seconds (patient.search.resolver cx network host w)) := by
  have hread : Config.initial.read (encode patientText) = patient.config.done := by decide +kernel
  exact ⟨hread, patient_overflow, lookups_overflow_iff hread⟩

end Stub

end HostLookup
