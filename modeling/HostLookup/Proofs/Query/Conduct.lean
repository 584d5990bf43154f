import HostLookup.Proofs.Activity.Views
import HostLookup.Proofs.Query.Laws

/-!
What a query does from its beginning to its end. It is begun once and dials its server at once,
unless its context is done by then; what it returns is read off the one reply that it received, or
is a failure that names the server.
-/
set_option autoImplicit false

namespace HostLookup

open Activity
open Clock (ComesBy)

theorem Network.events_dial (net : Network) (transport : Transport) (server : Endpoint)
    (w : World) : (net.dial transport server w).events = [⟨w.now, .dialed transport server⟩] := by
  change (Activity.bind world _ w).events = _
  simp only [Activity.bind, world, record, Bind.bind, sleep]
  cases (net transport server (w.dialed.count server)).item with
  | connected c => rfl
  | failed failure => rfl
  | never => rfl

namespace Query

variable {cx : Context} {deadline : Option Nat} {server : Endpoint} {w : World}

/-- Anything but the receipt of a reply. -/
def Unanswered (d : Deed) : Prop := ∀ a m, d ≠ .replied a m

/-- What asking a server can come to: nothing was heard of it, or the last event is its reply, which
was received before the work would have been cut off. -/
inductive Heard (cx : Context) (deadline : Option Nat) (server : Endpoint) (w : World) :
    Except Detail Message → Nat → List Event → Prop where
  | nothing {d : Detail} {n : Nat} {es : List Event} : (∀ e ∈ es, Unanswered e.deed) →
      Heard cx deadline server w (.error d) n es
  | reply {m : Message} {n t : Nat} {es : List Event} : (∀ e ∈ es, Unanswered e.deed) →
      ¬ ComesBy (cx.cutoff w.cancellations deadline) (w.now + n) →
      Heard cx deadline server w (classify m) n (es ++ [⟨t, .replied server m⟩])

theorem permits_unanswered : Permits (Only Unanswered) :=
  permits_only nofun fun _ => nofun

theorem dial_unanswered (net : Network) (transport : Transport) (server : Endpoint) :
    Obeys (Only Unanswered) (guarded cx deadline (net.dial transport server)) :=
  guarded_only (dial_obeys permits_unanswered (only_record fun _ _ h => by cases h) net)

theorem exchange_unanswered (c : Connection) (r : Request) :
    Obeys (Only Unanswered) (guarded cx deadline (Exchange.run c r)) :=
  guarded_only (Exchange.run_obeys permits_unanswered c r)

theorem secure_unanswered (protocol : Protocol) (a : Address) (c : Connection) :
    Obeys (Only Unanswered) (secure cx deadline protocol a c) := by
  unfold secure
  split
  · exact .pure (only_composes _) _
  · exact .pure (only_composes _) _
  · exact .pure (only_composes _) _
  · exact .bind (only_composes _) (guarded_only (shakeHands_obeys permits_unanswered _ a))
      fun _ => .pure (only_composes _) _

theorem Heard.behind {x : Except Detail Message} {m n : Nat} {es fs : List Event}
    (h : Heard cx deadline server (w.after m es) x n fs) (hes : ∀ e ∈ es, Unanswered e.deed) :
    Heard cx deadline server w x (m + n) (es ++ fs) := by
  cases h with
  | nothing hfs => exact .nothing (List.forall_mem_append.mpr ⟨hes, hfs⟩)
  | reply hfs hcut =>
    rw [← List.append_assoc]
    refine .reply (List.forall_mem_append.mpr ⟨hes, hfs⟩) fun hw => hcut ?_
    rw [World.now_after, Nat.add_assoc]
    exact Context.comesBy_cutoff_append hw

theorem exchange_heard {r : Request} {c : Connection} {x : Except Detail Message} {n : Nat}
    {es : List Event} (h : exchange cx deadline server r c w = ⟨.returned x, n, es⟩) :
    Heard cx deadline server w x n es := by
  obtain ⟨reply, m, es, k, fs, hg, h, rfl, rfl⟩ := bind_returned h
  have hes := (exchange_unanswered c r).report hg
  have hnothing : ∀ d, Heard cx deadline server w (.error d) m es := fun d => .nothing hes
  cases reply with
  | none =>
    obtain ⟨rfl, rfl, rfl⟩ := pure_returned h
    simpa using hnothing interrupted
  | some result =>
    cases result with
    | error failure =>
      obtain ⟨rfl, rfl, rfl⟩ := pure_returned h
      simpa using hnothing (transport failure)
    | ok reply =>
      obtain ⟨u, i, es', j, fs', hr, hp, rfl, rfl⟩ := bind_returned h
      obtain ⟨rfl, rfl, rfl⟩ := pure_returned hp
      cases hr
      exact .reply hes (guarded_returned_some hg).2

theorem talk_heard {protocol : Protocol} {r : Request} {c : Connection}
    {x : Except Detail Message} {n : Nat} {es : List Event}
    (h : talk cx deadline protocol server r c w = ⟨.returned x, n, es⟩) :
    Heard cx deadline server w x n es := by
  obtain ⟨secured, m, es, k, fs, hs, h, rfl, rfl⟩ := bind_returned h
  have hes := (secure_unanswered protocol server.address c).report hs
  refine Heard.behind ?_ hes
  cases secured with
  | error d =>
    obtain ⟨rfl, rfl, rfl⟩ := pure_returned h
    exact .nothing (by simp)
  | ok u => exact exchange_heard h

theorem ask_heard {net : Network} {protocol : Protocol} {r : Request}
    {x : Except Detail Message} {n : Nat} {es : List Event}
    (h : ask net cx deadline protocol server r w = ⟨.returned x, n, es⟩) :
    Heard cx deadline server w x n es := by
  rw [ask_eq] at h
  obtain ⟨dialed, m, es, k, fs, hd, h, rfl, rfl⟩ := bind_returned h
  have hes := (dial_unanswered net protocol.transport server).report hd
  refine Heard.behind ?_ hes
  cases dialed with
  | none =>
    obtain ⟨rfl, rfl, rfl⟩ := pure_returned h
    exact .nothing (by simp)
  | some result =>
    cases result with
    | error failure =>
      obtain ⟨rfl, rfl, rfl⟩ := pure_returned h
      exact .nothing (by simp)
    | ok c => exact talk_heard h

theorem classify_of_ne {m : Message} (h : m.header.rcode ≠ .noError) :
    ∃ d, classify m = .error d := by
  unfold classify
  dsimp only
  rw [if_neg h]
  split
  · exact ⟨_, rfl⟩
  · exact ⟨_, rfl⟩

/-- What a lookup makes of what was heard of a server. -/
def conclude (target : Target) (server : Endpoint) : Except Detail Message → Answer
  | .ok reply => .ok reply.addresses
  | .error d => .error ⟨(Subject.host target.text).withServer server, d⟩

section Run

variable {net : Network} {id : UInt16} {config : Config} {target : Target} {s : Server}
variable {type : RecordType}

/-- The first event of a query. -/
def begun (config : Config) (s : Server) (type : RecordType) (w : World) : Event :=
  ⟨w.now, .queried (s.endpoint config.protocol) type⟩

/-- What a query does once its deadline is fixed. -/
def answering (net : Network) (id : UInt16) (config : Config) (cx : Context)
    (deadline : Option Nat) (target : Target) (s : Server) (type : RecordType) :
    Activity Answer := do
  let x ← ask net cx deadline config.protocol (s.endpoint config.protocol) ⟨id, target.name, type⟩
  return conclude target (s.endpoint config.protocol) x

theorem answering_obeys {R : Law} (hR : Composes R)
    (h : Obeys R (ask net cx deadline config.protocol (s.endpoint config.protocol)
      ⟨id, target.name, type⟩)) :
    Obeys R (answering net id config cx deadline target s type) := by
  apply Obeys.bind hR h
  intro x
  exact .pure hR _

theorem run_of_overflow (h : cx.effectiveDeadline? w.now config.timeout = none) :
    run net id config cx target s type w =
      ⟨.overflow, 0, [begun config s type w]⟩ := by
  unfold run
  refine (bind_of_returned rfl).trans ?_
  rw [World.after_zero_nil, Report.behind_zero_nil, h]
  refine (bind_of_returned rfl).trans ?_
  rfl

theorem run_of_deadline (h : cx.effectiveDeadline? w.now config.timeout = some deadline) :
    run net id config cx target s type w =
      (answering net id config cx deadline target s type
        (w.after 0 [begun config s type w])).behind 0 [begun config s type w] := by
  unfold run
  refine (bind_of_returned rfl).trans ?_
  rw [World.after_zero_nil, Report.behind_zero_nil, h]
  refine (bind_of_returned rfl).trans ?_
  refine congrArg (Report.behind 0 _) ((bind_of_returned rfl).trans ?_)
  rw [World.after_zero_nil, Report.behind_zero_nil]
  refine congrFun (bind_congr fun x => ?_) _
  cases x with
  | ok reply => rfl
  | error d => rfl

theorem run_events (net : Network) (id : UInt16) (config : Config) (cx : Context)
    (target : Target) (s : Server) (type : RecordType) (w : World) :
    ∃ es, (run net id config cx target s type w).events = begun config s type w :: es ∧
      ∀ e ∈ es, e.deed = .dialed config.protocol.transport (s.endpoint config.protocol) ∨
        Speech (s.endpoint config.protocol) e.deed := by
  cases h : cx.effectiveDeadline? w.now config.timeout with
  | none =>
    rw [run_of_overflow h]
    exact ⟨[], rfl, by simp⟩
  | some deadline =>
    rw [run_of_deadline h]
    exact ⟨_, rfl, answering_obeys (only_composes _) (ask_only net cx deadline _ _ _) _⟩

theorem queries_run : Trace.queries (run net id config cx target s type w).events =
    [(s.endpoint config.protocol, type)] := by
  obtain ⟨es, hes, h⟩ := run_events net id config cx target s type w
  have hnil : Trace.queries es = [] := by
    apply Trace.queries_eq_nil
    intro e he a t
    exact deed_ne_of_contact (h e he) nofun nofun
  rw [hes]
  exact congrArg ((s.endpoint config.protocol, type) :: ·) hnil

theorem cancelledBy_run :
    World.cancelledBy (run net id config cx target s type w).events = [] := by
  obtain ⟨es, hes, h⟩ := run_events net id config cx target s type w
  rw [hes]
  apply World.cancelledBy_eq_nil
  intro e he t
  rcases List.mem_cons.mp he with rfl | he
  · exact nofun
  · exact deed_ne_of_contact (h e he) nofun nofun

theorem answering_endsBy (net : Network) (id : UInt16) (config : Config) (cx : Context)
    (deadline : Option Nat) (target : Target) (s : Server) (type : RecordType) :
    Obeys (EndsBy cx deadline) (answering net id config cx deadline target s type) :=
  answering_obeys (endsBy_composes cx deadline) (ask_endsBy net cx deadline _ _ _)

theorem run_endsBy (net : Network) (id : UInt16) (config : Config) (cx : Context)
    (target : Target) (s : Server) (type : RecordType) :
    Obeys (EndsBy cx cx.deadline) (run net id config cx target s type) := by
  intro w t ht
  cases h : cx.effectiveDeadline? w.now config.timeout with
  | none =>
    rw [run_of_overflow h]
    exact ⟨by simp, Nat.le_max_left w.now t⟩
  | some deadline =>
    have hcut := Context.comesBy_cutoff_of_effective h ht
    have hrun := answering_endsBy net id config cx deadline target s type
      (w.after 0 [begun config s type w]) t (Context.comesBy_cutoff_append hcut)
    rw [run_of_deadline h]
    simpa [Report.behind] using hrun

theorem run_endsWithin (net : Network) (id : UInt16) {config : Config} (cx : Context)
    (target : Target) (s : Server) (type : RecordType) (hp : 0 < config.timeout) :
    EndsWithin config.timeout (run net id config cx target s type) := by
  intro w
  cases h : cx.effectiveDeadline? w.now config.timeout with
  | none =>
    rw [run_of_overflow h]
    exact ⟨by simp, Nat.zero_le _⟩
  | some deadline =>
    have hcut : ComesBy (cx.cutoff w.cancellations deadline) (w.now + config.timeout) :=
      Context.comesBy_cutoff_timeout h hp
    obtain ⟨hs, hn⟩ := answering_endsBy net id config cx deadline target s type
      (w.after 0 [begun config s type w]) (w.now + config.timeout)
      (Context.comesBy_cutoff_append hcut)
    rw [World.now_after] at hn
    rw [run_of_deadline h]
    exact ⟨hs, by dsimp only [Report.behind]; omega⟩

theorem run_overflowsFor (net : Network) (id : UInt16) (config : Config) (cx : Context)
    (target : Target) (s : Server) (type : RecordType) :
    Obeys (OverflowsFor config.timeout) (run net id config cx target s type) := by
  intro w
  cases h : cx.effectiveDeadline? w.now config.timeout with
  | none =>
    rw [run_of_overflow h]
    intro _
    exact (Context.effectiveDeadline?_eq_none_iff.mp h).2
  | some deadline =>
    have hanswering : Obeys (OverflowsFor config.timeout)
        (answering net id config cx deadline target s type) :=
      answering_obeys (overflowsFor_composes _) (ask_overflowsFor net cx deadline _ _ _ _)
    have hrun := hanswering (w.after 0 [begun config s type w])
    rw [run_of_deadline h]
    simpa [Report.behind, OverflowsFor] using hrun

/-- A query that returns asked the server, and concluded its answer from what was heard. -/
theorem run_returned {answer : Answer} {n : Nat} {es : List Event}
    (h : run net id config cx target s type w = ⟨.returned answer, n, es⟩) :
    ∃ deadline x fs, cx.effectiveDeadline? w.now config.timeout = some deadline ∧
      ask net cx deadline config.protocol (s.endpoint config.protocol) ⟨id, target.name, type⟩
        (w.after 0 [begun config s type w]) = ⟨.returned x, n, fs⟩ ∧
      answer = conclude target (s.endpoint config.protocol) x ∧
      es = begun config s type w :: fs := by
  cases hd : cx.effectiveDeadline? w.now config.timeout with
  | none =>
    rw [run_of_overflow hd] at h
    cases h
  | some deadline =>
    rw [run_of_deadline hd] at h
    generalize hr : answering net id config cx deadline target s type
      (w.after 0 [begun config s type w]) = r at h
    cases r
    cases h
    obtain ⟨x, m, es, k, fs, ha, hp, rfl, rfl⟩ := bind_returned hr
    obtain ⟨rfl, rfl, rfl⟩ := pure_returned hp
    refine ⟨deadline, x, es, rfl, ?_, rfl, by rw [List.append_nil]; rfl⟩
    rw [Nat.add_zero, Nat.zero_add]
    exact ha

theorem run_heard {answer : Answer} {n : Nat} {es : List Event}
    (h : run net id config cx target s type w = ⟨.returned answer, n, es⟩) :
    ∃ deadline x, cx.effectiveDeadline? w.now config.timeout = some deadline ∧
      Heard cx deadline (s.endpoint config.protocol) w x n es ∧
      answer = conclude target (s.endpoint config.protocol) x := by
  obtain ⟨deadline, x, fs, hd, hx, ha, rfl⟩ := run_returned h
  have hbegun : ∀ e ∈ [begun config s type w], Unanswered e.deed := by
    intro e he _ _ h
    cases List.mem_singleton.mp he
    cases h
  have hheard := (ask_heard hx).behind hbegun
  rw [Nat.zero_add] at hheard
  exact ⟨deadline, x, hd, hheard, ha⟩

theorem answered_run {answer : Answer} {n : Nat} {es : List Event}
    (h : run net id config cx target s type w = ⟨.returned answer, n, es⟩) :
    Trace.answered es = answer.toOption.getD [] := by
  obtain ⟨deadline, x, _, hx, rfl⟩ := run_heard h
  cases hx with
  | nothing hes => exact Trace.answered_eq_nil hes
  | @reply m n t es hes _ =>
    rw [Trace.answered_append, Trace.answered_eq_nil hes, List.nil_append]
    by_cases hm : m.header.rcode = .noError
    · simp [classify, conclude, Trace.answered, Trace.replies, hm, Except.toOption]
    · obtain ⟨d, hd⟩ := classify_of_ne hm
      simp [hd, conclude, Trace.answered, Trace.replies, hm, Except.toOption]

/-- A query that brought addresses, even none, returned before its context was done. -/
theorem not_isDone_of_run_ok {addrs : List Address} {n : Nat} {es : List Event}
    (h : run net id config cx target s type w = ⟨.returned (.ok addrs), n, es⟩) :
    cx.isDone (w.after n es).cancellations (w.after n es).now = false := by
  have hcancelled : World.cancelledBy (run net id config cx target s type w).events = [] :=
    cancelledBy_run
  rw [h] at hcancelled
  obtain ⟨deadline, x, hd, hx, ha⟩ := run_heard h
  cases hx with
  | nothing => cases ha
  | reply _ hcut =>
    rw [World.cancellations_after, hcancelled, List.append_nil, World.now_after,
      ← Bool.not_eq_true, Context.isDone_iff]
    exact fun hdone => hcut (Context.comesBy_cutoff_of_effective hd hdone)

theorem ask_of_isDone (h : ComesBy (cx.cutoff w.cancellations deadline) w.now) (net : Network)
    (protocol : Protocol) (r : Request) :
    ask net cx deadline protocol server r w = ⟨.returned (.error interrupted), 0, []⟩ := by
  rw [ask_eq]
  refine (bind_of_returned (guarded_of_comesBy h)).trans ?_
  rfl

/-- A query whose context is done when it is begun comes to nothing at once. -/
theorem run_of_isDone {answer : Answer} {n : Nat} {es : List Event}
    (h : cx.isDone w.cancellations w.now = true)
    (hr : run net id config cx target s type w = ⟨.returned answer, n, es⟩) :
    answer = conclude target (s.endpoint config.protocol) (.error interrupted) ∧ n = 0 ∧
      es = [begun config s type w] := by
  obtain ⟨deadline, x, fs, hd, hx, rfl, rfl⟩ := run_returned hr
  have hcut := (Context.comesBy_cutoff_now_iff hd).mpr h
  rw [ask_of_isDone (Context.comesBy_cutoff_append hcut)] at hx
  cases hx
  exact ⟨rfl, rfl, rfl⟩

theorem dialedBy_ask (h : ¬ ComesBy (cx.cutoff w.cancellations deadline) w.now) (net : Network)
    (protocol : Protocol) (r : Request) :
    World.dialedBy (ask net cx deadline protocol server r w).events = [server] := by
  have hdial : ∀ e ∈ (net.dial protocol.transport server w).events, e.time = w.now := by
    rw [Network.events_dial]
    intro e he
    cases List.mem_singleton.mp he
    rfl
  have hproceed : ∀ dialed,
      Obeys (Only (Speech server)) (proceed cx deadline protocol server r dialed) :=
    proceed_obeys (talks_only fun _ h => h) protocol r
  obtain ⟨es, hes, hspeech⟩ := bind_events
    (guarded cx deadline (net.dial protocol.transport server)) hproceed w
  have hquiet : World.dialedBy es = [] := by
    apply World.dialedBy_eq_nil
    intro e he t a
    exact (hspeech e he).deed_ne nofun
  rw [guarded_events_of_start h hdial, Network.events_dial] at hes
  refine (congrArg World.dialedBy hes).trans ?_
  rw [World.dialedBy_append, hquiet]
  rfl

/-- A query that has time at all dials its server at once. -/
theorem dialedBy_run {answer : Answer} {n : Nat} {es : List Event}
    (h : cx.isDone w.cancellations w.now = false)
    (hr : run net id config cx target s type w = ⟨.returned answer, n, es⟩) :
    World.dialedBy es = [s.endpoint config.protocol] := by
  obtain ⟨deadline, x, fs, hd, hx, _, rfl⟩ := run_returned hr
  have hcut : ¬ ComesBy (cx.cutoff w.cancellations deadline) w.now := by
    rw [Context.comesBy_cutoff_now_iff hd, h]
    exact Bool.false_ne_true
  have hdialed : World.dialedBy (ask net cx deadline config.protocol
      (s.endpoint config.protocol) ⟨id, target.name, type⟩
      (w.after 0 [begun config s type w])).events = [s.endpoint config.protocol] :=
    dialedBy_ask (by simpa [World.cancelledBy, begun] using hcut) net config.protocol _
  rw [hx] at hdialed
  exact hdialed

end Run

end Query

end HostLookup
