import HostLookup.Proofs.Servers.Walk
import Mathlib.Data.List.Basic

/-!
Where the walk over servers stops, and what it comes to. Of all questions, servers outermost, those
asked are the shortest beginning after which the walk has to stop; the answer depends on those
questions' answers alone.
-/
set_option autoImplicit false

namespace HostLookup.Servers

/-- The last answer is a final failure. -/
def EndsFatally (log : List Asked) (f : Failure) : Prop :=
  ∃ before q, log = before ++ [q] ∧ q.answer = .error f ∧ f.cause.IsFinal

/-- The log ends with the answers of one server for all types, and some address is among them. -/
def EndsServed (servers : List Server) (types : List RecordType) (log row : List Asked) : Prop :=
  ∃ earlier server later before, servers = earlier ++ server :: later ∧ log = before ++ row ∧
    before.map Asked.question = earlier ×ˢ types ∧
    row.map Asked.question = types.map (fun type => (server, type)) ∧ gathered row ≠ []

/-- No question is asked after these. -/
def Stops (servers : List Server) (types : List RecordType) (log : List Asked) : Prop :=
  (∃ f, EndsFatally log f) ∨ (∃ row, EndsServed servers types log row) ∨
    log.map Asked.question = servers ×ˢ types

/-- What a walk comes to: a final failure, which makes all addresses void; the addresses of the
first server that has any; or the first failure, and `none` if there is none. -/
inductive Verdict (servers : List Server) (types : List RecordType) (none : Failure)
    (log : List Asked) : Answer → Prop where
  | fatal {f : Failure} : EndsFatally log f → Verdict servers types none log (.error f)
  | served {row : List Asked} : EndsServed servers types log row → NoneFatal log →
      gathered log = gathered row → Verdict servers types none log (.ok (gathered row))
  | exhausted : log.map Asked.question = servers ×ˢ types → NoneFatal log → gathered log = [] →
      Verdict servers types none log (.error ((failures log).head?.getD none))

variable {servers : List Server} {types : List RecordType}

theorem NoneFatal.isPrefix {p log : List Asked} (h : NoneFatal log) (hp : p <+: log) :
    NoneFatal p := by
  obtain ⟨rest, rfl⟩ := hp
  exact (noneFatal_append_iff.mp h).1

theorem EndsFatally.mem_failures {log : List Asked} {f : Failure} (h : EndsFatally log f) :
    f ∈ failures log := by
  obtain ⟨before, q, rfl, hq, _⟩ := h
  simp [failures, Asked.failure?, hq]

theorem EndsFatally.isFinal {log : List Asked} {f : Failure} (h : EndsFatally log f) :
    f.cause.IsFinal := by
  obtain ⟨_, _, _, _, hf⟩ := h
  exact hf

theorem NoneFatal.not_endsFatally {log : List Asked} (h : NoneFatal log) (f : Failure) :
    ¬ EndsFatally log f := by
  intro hf
  exact h f hf.mem_failures hf.isFinal

theorem EndsServed.gathered_ne_nil {log row : List Asked} (h : EndsServed servers types log row) :
    gathered log ≠ [] := by
  obtain ⟨_, _, _, before, _, rfl, _, _, hne⟩ := h
  simp [hne]

theorem EndsServed.length_eq {log row : List Asked} (h : EndsServed servers types log row) :
    ∃ k, log.length = (k + 1) * types.length := by
  obtain ⟨earlier, server, _, before, _, rfl, hb, hr, _⟩ := h
  have hb := congrArg List.length hb
  have hr := congrArg List.length hr
  rw [List.length_map, List.length_product] at hb
  rw [List.length_map, List.length_map] at hr
  exact ⟨earlier.length, by rw [List.length_append, hb, hr, Nat.add_mul, Nat.one_mul]⟩

/-- While a question to a server is pending, the walk has had no reason to stop. -/
theorem Underway.not_stops {before row : List Asked} {q : Server × RecordType}
    (h : Underway servers types before row [q]) {p : List Asked} (hp : p <+: before ++ row) :
    ¬ Stops servers types p := by
  have hall := h.reaches.isPrefix.length_le
  obtain ⟨earlier, server, later, hsplit, hbefore, hrow⟩ := h.reaches
  have hb := congrArg List.length hbefore
  have hr := hrow.length_le
  have hle := hp.length_le
  simp only [List.length_append, List.length_map, List.length_product, List.length_singleton]
    at hall hb hr hle
  rintro (⟨f, hf⟩ | ⟨row', hs⟩ | hx)
  · exact (h.noneFatal.isPrefix hp).not_endsFatally f hf
  · -- A server's complete row within the log lies within `before`, where nothing was gathered.
    obtain ⟨k, hk⟩ := hs.length_eq
    have hkl : k + 1 ≤ earlier.length := by
      by_contra hcon
      have := Nat.mul_le_mul_right types.length (by omega : earlier.length + 1 ≤ k + 1)
      rw [Nat.add_mul, Nat.one_mul] at this
      omega
    have hlen : p.length ≤ before.length := by
      rw [hk, hb]
      exact Nat.mul_le_mul_right _ hkl
    obtain ⟨rest, hrest⟩ :=
      List.prefix_of_prefix_length_le hp (List.prefix_append before row) hlen
    have hg := h.noneGathered
    rw [← hrest, gathered_append] at hg
    exact hs.gathered_ne_nil (List.append_eq_nil_iff.mp hg).1
  · have hx := congrArg List.length hx
    rw [List.length_map, List.length_product] at hx
    omega

theorem stops_iff_of_underway {before row : List Asked} {q : Asked}
    (h : Underway servers types before row [q.question])
    (hs : Stops servers types (before ++ row ++ [q])) {p : List Asked}
    (hp : p <+: before ++ row ++ [q]) :
    Stops servers types p ↔ p = before ++ row ++ [q] := by
  constructor
  · intro hstop
    rcases List.prefix_concat_iff.mp hp with rfl | hp
    · rfl
    · exact absurd hstop (h.not_stops hp)
  · rintro rfl
    exact hs

/-- The log of a walk that comes to an end. -/
structure Ended (servers : List Server) (types : List RecordType) (none : Failure)
    (log : List Asked) (answer : Answer) : Prop where
  isPrefix : log.map Asked.question <+: servers ×ˢ types
  stops_iff : ∀ p, p <+: log → (Stops servers types p ↔ p = log)
  verdict : Verdict servers types none log answer

theorem ended_of_exhausted {none : Failure} {log : List Asked}
    (hq : log.map Asked.question = servers ×ˢ types) (hn : NoneFatal log)
    (hg : gathered log = []) :
    Ended servers types none log (.error ((failures log).head?.getD none)) where
  isPrefix := hq ▸ List.prefix_refl _
  stops_iff := by
    intro p hp
    constructor
    · rintro (⟨f, hf⟩ | ⟨row, hs⟩ | hx)
      · exact absurd hf ((hn.isPrefix hp).not_endsFatally f)
      · obtain ⟨rest, rfl⟩ := hp
        rw [gathered_append] at hg
        exact absurd (List.append_eq_nil_iff.mp hg).1 hs.gathered_ne_nil
      · have hlen := congrArg List.length (hx.trans hq.symm)
        rw [List.length_map, List.length_map] at hlen
        exact hp.eq_of_length hlen
    · rintro rfl
      exact Or.inr (Or.inr hq)
  verdict := .exhausted hq hn hg

theorem ended_of_served {none : Failure} {before row : List Asked}
    (hu : Underway servers types before row []) (hlen : row.length = types.length)
    (hg : gathered row ≠ []) :
    Ended servers types none (before ++ row) (.ok (gathered row)) := by
  obtain ⟨earlier, server, later, hsplit, hbefore, hrow⟩ := hu.reaches
  rw [List.append_nil] at hrow
  have hrow : row.map Asked.question = types.map fun type => (server, type) :=
    hrow.eq_of_length (by rw [List.length_map, List.length_map, hlen])
  have hserved : EndsServed servers types (before ++ row) row :=
    ⟨earlier, server, later, before, hsplit, rfl, hbefore, hrow, hg⟩
  have hfits : (before ++ row).map Asked.question <+: servers ×ˢ types := by
    have := hu.reaches.isPrefix
    rwa [List.append_nil, ← List.map_append] at this
  refine ⟨hfits, ?_, .served hserved hu.noneFatal ?_⟩
  · intro p hp
    obtain ⟨init, q, rfl⟩ : ∃ init q, row = init ++ [q] :=
      (List.eq_nil_or_concat' row).resolve_left (by rintro rfl; exact hg gathered_nil)
    have hpending : Underway servers types before init [q.question] :=
      ⟨⟨earlier, server, later, hsplit, hbefore, by
          rw [← hrow, List.map_append]
          exact List.prefix_refl _⟩,
        hu.noneFatal.isPrefix (by rw [← List.append_assoc]; exact List.prefix_append _ _),
        hu.noneGathered⟩
    rw [← List.append_assoc] at hp hserved ⊢
    exact stops_iff_of_underway hpending (Or.inr (Or.inl ⟨_, hserved⟩)) hp
  · rw [gathered_append, hu.noneGathered, List.nil_append]

theorem ended_of_fatal {none : Failure} {before row : List Asked} {q : Server × RecordType}
    {f : Failure} (hu : Underway servers types before row [q]) (hf : f.isFatal = true) :
    Ended servers types none (before ++ row ++ [⟨q.1, q.2, .error f⟩]) (.error f) := by
  have hends : EndsFatally (before ++ row ++ [⟨q.1, q.2, .error f⟩]) f :=
    ⟨before ++ row, _, rfl, rfl, Failure.isFatal_iff.mp hf⟩
  refine ⟨?_, fun p hp => stops_iff_of_underway hu (Or.inl ⟨f, hends⟩) hp, .fatal hends⟩
  rw [List.map_append, List.map_append, List.append_assoc]
  exact hu.reaches.isPrefix

/-- The log of a walk that waits for the answer to one more question. -/
structure Waiting (servers : List Server) (types : List RecordType) (log : List Asked)
    (q : Server × RecordType) : Prop where
  isPrefix : log.map Asked.question ++ [q] <+: servers ×ˢ types
  not_stops : ∀ p, p <+: log → ¬ Stops servers types p

theorem waiting_of_underway {before row : List Asked} {q : Server × RecordType}
    (hu : Underway servers types before row [q]) : Waiting servers types (before ++ row) q where
  isPrefix := by
    rw [List.map_append, List.append_assoc]
    exact hu.reaches.isPrefix
  not_stops _ hp := hu.not_stops hp

theorem askAll_cases (ask : Server → RecordType → Activity Answer) (servers : List Server)
    (types : List RecordType) (none : Failure) (w : World) :
    ∃ log m es, Asks ask w log m es ∧
      ((∃ answer, Ended servers types none log answer ∧
          askAll ask types none servers .none w = ⟨.returned answer, m, es⟩) ∨
        ∃ q d e k fs, Waiting servers types log q ∧ ask q.1 q.2 (w.after m es) = ⟨d, k, fs⟩ ∧
          d.Halts e ∧ askAll ask types none servers .none w = ⟨e, m + k, es ++ fs⟩) := by
  have h := askAll_course ask servers types none .none w
  generalize askAll ask types none servers .none w = r at h
  cases h with
  | exhausted hs hq hn hg => exact ⟨_, _, _, hs, Or.inl ⟨_, ended_of_exhausted hq hn hg, rfl⟩⟩
  | served hs hu hlen hg => exact ⟨_, _, _, hs, Or.inl ⟨_, ended_of_served hu hlen hg, rfl⟩⟩
  | fatal hs hu hf => exact ⟨_, _, _, hs, Or.inl ⟨_, ended_of_fatal hu hf, rfl⟩⟩
  | halted hs hu hpending hd =>
    exact ⟨_, _, _, hs, Or.inr ⟨_, _, _, _, _, waiting_of_underway hu, hpending, hd, rfl⟩⟩

end HostLookup.Servers
