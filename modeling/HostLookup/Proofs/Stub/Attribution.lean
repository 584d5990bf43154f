import HostLookup.Proofs.Stub.Lookup

/-!
Which server a failure names. Every query that fails names its server, but a query whose context is
done does not dial it. So the server that a failure names was dialed unless the context was done
before the lookup began, and then nothing was dialed at all.
-/
set_option autoImplicit false

namespace HostLookup.Stub

open Activity Servers

variable {s : Stub} {cx : Context} {target : Target} {server : Server} {type : RecordType}
variable {w : World} {n : Nat} {es : List Event}

theorem query_error_server {f : Failure}
    (h : s.query cx target server type w = ⟨.returned (.error f), n, es⟩) :
    f.server = some (server.endpoint s.config.protocol) := by
  rw [query_apply] at h
  obtain ⟨_, x, _, _, _, hx, _⟩ := Query.run_returned h
  cases x with
  | ok reply => cases hx
  | error d =>
    cases hx
    rfl

theorem query_of_isDone {answer : Answer} (hd : cx.isDone w.cancellations w.now = true)
    (h : s.query cx target server type w = ⟨.returned answer, n, es⟩) :
    (∃ f, answer = .error f ∧ f.isFatal = false) ∧ World.dialedBy es = [] := by
  rw [query_apply] at h
  obtain ⟨rfl, rfl, rfl⟩ := Query.run_of_isDone hd h
  exact ⟨⟨_, rfl, rfl⟩, rfl⟩

/-- A query that fails while there is time has dialed the server that it names. -/
theorem query_error_dialed {f : Failure} {a : Endpoint}
    (hn : cx.isDone w.cancellations w.now = false)
    (h : s.query cx target server type w = ⟨.returned (.error f), n, es⟩)
    (ha : f.server = some a) : a ∈ World.dialedBy es := by
  rw [query_error_server h] at ha
  cases ha
  rw [query_apply] at h
  rw [Query.dialedBy_run hn h]
  exact List.mem_singleton_self _

theorem isDone_after (h : cx.isDone w.cancellations w.now = true) (n : Nat) (es : List Event) :
    cx.isDone (w.after n es).cancellations (w.after n es).now = true := by
  rw [Context.isDone_iff] at h ⊢
  exact Context.comesBy_cutoff_append (h.mono (Nat.le_add_right w.now n))

theorem dialedBy_asks_of_isDone {log : List Asked} (hd : cx.isDone w.cancellations w.now = true)
    (h : Asks (s.query cx target) w log n es) : World.dialedBy es = [] := by
  induction log generalizing w n es with
  | nil =>
    cases h
    rfl
  | cons q log ih =>
    obtain ⟨m, es, k, gs, hq, hlog, rfl, rfl⟩ := h.of_cons
    rw [World.dialedBy_append, (query_of_isDone hd hq).2, ih (isDone_after hd m es) hlog]
    rfl

theorem fatal_failure_dialed {log : List Asked} {f : Failure} {a : Endpoint}
    (h : Asks (s.query cx target) w log n es) (hf : f ∈ failures log) (hfinal : f.cause.IsFinal)
    (ha : f.server = some a) : a ∈ World.dialedBy es := by
  induction log generalizing w n es with
  | nil => cases hf
  | cons q log ih =>
    obtain ⟨server, type, answer⟩ := q
    obtain ⟨m, es, k, gs, hq, hlog, rfl, rfl⟩ := h.of_cons
    rw [World.dialedBy_append, List.mem_append]
    cases answer with
    | ok addrs => exact Or.inr (ih hlog hf)
    | error g =>
      rcases List.mem_cons.mp hf with rfl | hf
      · left
        cases hd : cx.isDone w.cancellations w.now with
        | false => exact query_error_dialed hd hq ha
        | true =>
          obtain ⟨⟨g, hg, hsoft⟩, _⟩ := query_of_isDone hd hq
          cases hg
          rw [Failure.isFatal_iff.mpr hfinal] at hsoft
          cases hsoft
      · exact Or.inr (ih hlog hf)

/-- If there was time at the beginning, there was time for the first query that failed, since the
ones before it were answered in time. -/
theorem first_failure_dialed {log : List Asked} {f : Failure} {a : Endpoint}
    (hn : cx.isDone w.cancellations w.now = false) (h : Asks (s.query cx target) w log n es)
    (hf : (failures log).head? = some f) (ha : f.server = some a) : a ∈ World.dialedBy es := by
  induction log generalizing w n es with
  | nil => cases hf
  | cons q log ih =>
    obtain ⟨server, type, answer⟩ := q
    obtain ⟨m, es, k, gs, hq, hlog, rfl, rfl⟩ := h.of_cons
    rw [World.dialedBy_append, List.mem_append]
    cases answer with
    | error g =>
      cases hf
      exact Or.inl (query_error_dialed hn hq ha)
    | ok addrs =>
      rw [query_apply] at hq
      exact Or.inr (ih (Query.not_isDone_of_run_ok hq) hlog hf)

theorem failure_dialed {network host : String} {f : Failure} {a : Endpoint}
    (h : (s.resolver cx network host w).ending = .returned (.error f)) (ha : f.server = some a) :
    (cx.isDone w.cancellations w.now = false →
        a ∈ World.dialedBy (s.resolver cx network host w).events) ∧
      (cx.isDone w.cancellations w.now = true →
        World.dialedBy (s.resolver cx network host w).events = []) := by
  have hhandled := resolver_handled s cx network host
  generalize s.resolver cx network host = lookup at h hhandled
  cases hhandled with
  | literal => cases h
  | failed cause =>
    cases h
    cases ha
  | @asked family target hf =>
    have hwalked := askServers_walked s cx family host target w
    generalize s.askServers cx family host target w = r at h hwalked
    cases hwalked with
    | stalled => cases h
    | overflow => cases h
    | @ended log answer e m es fs hs hended harranged hfs _ _ =>
      cases h
      cases harranged
      dsimp only
      rw [World.dialedBy_append, hfs.dialedBy_eq_nil, List.append_nil]
      refine ⟨fun hn => ?_, fun hd => dialedBy_asks_of_isDone hd hs⟩
      cases hended.verdict with
      | fatal hends => exact fatal_failure_dialed hs hends.mem_failures hends.isFinal ha
      | exhausted =>
        cases hfirst : (failures log).head? with
        | none =>
          rw [hfirst] at ha
          cases ha
        | some g =>
          rw [hfirst] at ha
          exact first_failure_dialed hn hs hfirst ha

theorem failure_server_dialed_iff {network host : String} {f : Failure} {a : Endpoint}
    (h : (s.resolver cx network host w).ending = .returned (.error f)) (ha : f.server = some a) :
    (a ∈ World.dialedBy (s.resolver cx network host w).events ↔
        cx.isDone w.cancellations w.now = false) ∧
      (World.dialedBy (s.resolver cx network host w).events = [] ↔
        cx.isDone w.cancellations w.now = true) := by
  obtain ⟨hdialed, hquiet⟩ := failure_dialed h ha
  cases hd : cx.isDone w.cancellations w.now with
  | false =>
    have hmem := hdialed hd
    simp [hmem, List.ne_nil_of_mem hmem]
  | true =>
    have hnil := hquiet hd
    simp [hnil]

/-- A stub resolver whose server does not answer. -/
def idle : Stub := ofDialEnd .never

theorem idle_answer :
    (idle.resolver (.ofToken (.root 0)) "ip4" "example" ⟨0, [⟨0, 0⟩], []⟩).ending =
      .returned (.error ⟨⟨"example.", some (.of (.v4 .localhost) 53)⟩, Query.interrupted⟩) := by
  have hnetwork : Family.ofNetwork? "ip4" = some .v4 := rfl
  have hliteral : Address.ofString? "example" = none := by decide +kernel
  have hname : DomainName.ofHost? "example" =
      some ("example.", ⟨[[101, 120, 97, 109, 112, 108, 101]]⟩) := by decide +kernel
  rw [resolver_eq_askServers hnetwork hliteral hname]
  cbv

theorem failure_server_dialed_iff_idle :
    let r := idle.resolver (.ofToken (.root 0)) "ip4" "example" ⟨0, [⟨0, 0⟩], []⟩
    r.ending =
        .returned (.error ⟨⟨"example.", some (.of (.v4 .localhost) 53)⟩, Query.interrupted⟩) ∧
      (.of (.v4 .localhost) 53 ∈ World.dialedBy r.events ↔
        (Context.ofToken (.root 0)).isDone [⟨0, 0⟩] 0 = false) ∧
      (World.dialedBy r.events = [] ↔ (Context.ofToken (.root 0)).isDone [⟨0, 0⟩] 0 = true) :=
  ⟨idle_answer, failure_server_dialed_iff idle_answer rfl⟩

end HostLookup.Stub
