import HostLookup.Proofs.Query.Conduct

/-!
Queries that are cut short. Every step of a query that is over before the cut-off leaves the query
in time, and what follows it at once takes no time; so a query that ends when its time is over was
cut short in the step that was its last, and fails with a timeout.
-/
set_option autoImplicit false

namespace HostLookup

open Activity
open Clock (ComesBy)

/-- The failure says that time ran out. -/
def Failure.TimedOut (f : Failure) : Prop := f.cause = .timeout ∧ f.isTimeout = true

theorem Failure.TimedOut.not_isFatal {f : Failure} (h : f.TimedOut) : f.isFatal = false := by
  unfold isFatal
  rw [h.1]

namespace Query

variable {cx : Context} {deadline : Option Nat} {server : Endpoint} {w : World} {n : Nat}
variable {es : List Event} {protocol : Protocol} {r : Request} {x : Except Detail Message}

/-- A step of a query was cut short, and the query ends with that. -/
inductive CutShort : Except Detail Message → Prop where
  | interrupted : CutShort (.error interrupted)
  | handshake : CutShort (.error (.of .timeout))

theorem exchange_cutShort {c : Connection}
    (h : exchange cx deadline server r c w = ⟨.returned x, n, es⟩)
    (hcut : ComesBy (cx.cutoff w.cancellations deadline) (w.now + n)) : CutShort x := by
  obtain ⟨reply, m, es, k, fs, hg, h, rfl, rfl⟩ := bind_returned h
  cases reply with
  | none =>
    obtain ⟨rfl, _, _⟩ := pure_returned h
    exact .interrupted
  | some result =>
    have hk : k = 0 := by
      cases result with
      | error failure => exact (pure_returned h).2.1
      | ok reply =>
        obtain ⟨_, i, _, j, _, hr, hp, rfl, _⟩ := bind_returned h
        cases hr
        rw [(pure_returned hp).2.1]
    subst hk
    exact absurd hcut (guarded_returned_some hg).2

/-- A connection is encrypted in time, or the handshake was cut short, or there was no time for
anything else that could have failed. -/
theorem secure_cases {a : Address} {c : Connection} {secured : Except Detail Unit}
    (h : secure cx deadline protocol a c w = ⟨.returned secured, n, es⟩) :
    (∃ u, secured = .ok u) ∨ secured = .error (.of .timeout) ∨
      n = 0 ∨ ¬ ComesBy (cx.cutoff w.cancellations deadline) (w.now + n) := by
  unfold secure at h
  split at h
  · exact .inl ⟨(), (pure_returned h).1⟩
  · exact .inl ⟨(), (pure_returned h).1⟩
  · exact .inr (.inr (.inl (pure_returned h).2.1))
  · obtain ⟨shaken, m, es, k, fs, hg, hp, rfl, rfl⟩ := bind_returned h
    obtain ⟨rfl, rfl, rfl⟩ := pure_returned hp
    cases shaken with
    | none => exact .inr (.inl rfl)
    | some result => exact .inr (.inr (.inr (guarded_returned_some hg).2))

theorem talk_cutShort {c : Connection}
    (h : talk cx deadline protocol server r c w = ⟨.returned x, n, es⟩)
    (hnow : ¬ ComesBy (cx.cutoff w.cancellations deadline) w.now)
    (hcut : ComesBy (cx.cutoff w.cancellations deadline) (w.now + n)) : CutShort x := by
  obtain ⟨secured, m, es, k, fs, hs, h, rfl, rfl⟩ := bind_returned h
  cases secured with
  | ok u =>
    refine exchange_cutShort h (Context.comesBy_cutoff_append ?_)
    rwa [World.now_after, Nat.add_assoc]
  | error d =>
    obtain ⟨rfl, rfl, rfl⟩ := pure_returned h
    rcases secure_cases hs with ⟨u, hu⟩ | hd | rfl | hin
    · cases hu
    · cases hd
      exact .handshake
    · exact absurd hcut hnow
    · exact absurd hcut hin

theorem cancelledBy_dial {net : Network} {transport : Transport}
    {dialed : Option (Except IoFailure Connection)}
    (h : guarded cx deadline (net.dial transport server) w = ⟨.returned dialed, n, es⟩) :
    World.cancelledBy es = [] := by
  apply World.cancelledBy_eq_nil
  intro e he token
  have hmem : e ∈ (guarded cx deadline (net.dial transport server) w).events := by rwa [h]
  have hdial := mem_events_of_guarded hmem
  rw [Network.events_dial] at hdial
  cases List.mem_singleton.mp hdial
  exact nofun

theorem ask_cutShort {net : Network}
    (h : ask net cx deadline protocol server r w = ⟨.returned x, n, es⟩)
    (hcut : ComesBy (cx.cutoff w.cancellations deadline) (w.now + n)) : CutShort x := by
  rw [ask_eq] at h
  obtain ⟨dialed, m, es, k, fs, hd, h, rfl, rfl⟩ := bind_returned h
  cases dialed with
  | none =>
    obtain ⟨rfl, _, _⟩ := pure_returned h
    exact .interrupted
  | some result =>
    have hin := (guarded_returned_some hd).2
    cases result with
    | error failure =>
      obtain ⟨rfl, rfl, rfl⟩ := pure_returned h
      exact absurd hcut hin
    | ok c =>
      -- Dialing cancels nothing, so talking starts with the cut-off that dialing had.
      have hcancelled := cancelledBy_dial hd
      refine talk_cutShort h ?_ ?_
      · rwa [World.cancellations_after, hcancelled, List.append_nil]
      · rwa [World.cancellations_after, hcancelled, List.append_nil, World.now_after,
          Nat.add_assoc]

/-- A query at whose end the context is done fails with a timeout. -/
theorem timedOut_of_isDone {net : Network} {id : UInt16} {config : Config} {target : Target}
    {s : Server} {type : RecordType} {answer : Answer}
    (h : run net id config cx target s type w = ⟨.returned answer, n, es⟩)
    (hdone : cx.isDone (w.after n es).cancellations (w.after n es).now = true) :
    ∃ f, answer = .error f ∧ f.TimedOut := by
  have hcancelled : World.cancelledBy (run net id config cx target s type w).events = [] :=
    cancelledBy_run
  rw [h] at hcancelled
  obtain ⟨deadline, x, fs, hd, hx, rfl, _⟩ := run_returned h
  rw [World.cancellations_after, hcancelled, List.append_nil, World.now_after,
    Context.isDone_iff] at hdone
  have hcut := Context.comesBy_cutoff_of_effective hd hdone
  cases ask_cutShort hx (Context.comesBy_cutoff_append hcut) with
  | interrupted => exact ⟨_, rfl, rfl, rfl⟩
  | handshake => exact ⟨_, rfl, rfl, rfl⟩

end Query

end HostLookup
