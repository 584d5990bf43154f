import HostLookup.Proofs.Message.Malformed
import HostLookup.Proofs.Query.Range
import HostLookup.Proofs.Query.Replies
import HostLookup.Proofs.Selection.Probing
import HostLookup.Proofs.Servers.Outcome
import Mathlib.Data.List.Permutation

/-!
What a lookup of a name comes to. Its queries are the walk over the servers in the order that was
drawn, and their addresses stand in the replies. What the walk comes to is the answer, up to the
order of addresses, unless these contradict each other and cannot be put in order. Only a lookup
without any deadline can wait for ever, and only the end of the clock's range can stop its walk.
-/
set_option autoImplicit false

namespace HostLookup

open Activity Selection Servers

namespace Stub

/-- A stub resolver with one server, to which all connections go the same way. -/
def ofDialEnd (dialEnd : DialEnd) : Stub where
  config := Config.initial.addServer (.ofAddress (.v4 .localhost))
  network _ _ _ := ⟨0, dialEnd⟩
  source _ := none
  messageId _ := 0
  draws _ := []

variable (s : Stub)

/-- What can be seen of a question in the events. -/
def seen (q : Server × RecordType) : Endpoint × RecordType :=
  (q.1.endpoint s.config.protocol, q.2)

/-- The answers of some questions are read off replies without error: none for a question that
failed, and for any other one a reply to it from the server that was asked, which brings the
addresses. -/
inductive ReadOff (target : Target) : List Asked → List (Endpoint × Message) → Prop where
  | nil : ReadOff target [] []
  | failed {server : Server} {type : RecordType} {f : Failure} {log : List Asked}
      {rs : List (Endpoint × Message)} : ReadOff target log rs →
      ReadOff target (⟨server, type, .error f⟩ :: log) rs
  | replied {server : Server} {type : RecordType} {addrs : List Address} {id : UInt16}
      {reply : Message} {log : List Asked} {rs : List (Endpoint × Message)} :
      reply.answers (⟨id, target.name, type⟩ : Request).message = true → reply.Yields addrs →
      ReadOff target log rs → ReadOff target (⟨server, type, .ok addrs⟩ :: log)
        ((server.endpoint s.config.protocol, reply) :: rs)

/-- How asking the servers for the addresses of a host goes. -/
inductive Walked (cx : Context) (family : Family) (host : String) (target : Target) (w : World) :
    Report Answer → Prop where
  | ended {log : List Asked} {answer : Answer} {e : Ending Answer} {m : Nat} {es fs : List Event} :
      Asks (s.query cx target) w log m es →
      Ended (s.serverOrder w) family.recordTypes (.ofHost host .notFound) log answer →
      Arranged s.source answer e →
      Probes fs →
      Trace.queries (es ++ fs) = (log.map Asked.question).map s.seen →
      s.ReadOff target log (Trace.accepted (es ++ fs)) →
      Walked cx family host target w ⟨e, m, es ++ fs⟩
  /-- A question is never answered. -/
  | stalled {log : List Asked} {q : Server × RecordType} {m k : Nat} {es fs : List Event} :
      Asks (s.query cx target) w log m es →
      Waiting (s.serverOrder w) family.recordTypes log q →
      s.query cx target q.1 q.2 (w.after m es) = ⟨.stalled, k, fs⟩ →
      s.config.timeout = 0 ∧ cx.cutoff w.cancellations cx.deadline = none →
      Trace.queries (es ++ fs) = (log.map Asked.question ++ [q]).map s.seen →
      Walked cx family host target w ⟨.stalled, m + k, es ++ fs⟩
  /-- The time for a question would reach beyond the clock's range. -/
  | overflow {log : List Asked} {q : Server × RecordType} {m k : Nat} {es fs : List Event} :
      Asks (s.query cx target) w log m es →
      Waiting (s.serverOrder w) family.recordTypes log q →
      s.query cx target q.1 q.2 (w.after m es) = ⟨.overflow, k, fs⟩ →
      Clock.after? (w.now + (m + k)) s.config.timeout = none →
      Trace.queries (es ++ fs) = (log.map Asked.question ++ [q]).map s.seen →
      Walked cx family host target w ⟨.overflow, m + k, es ++ fs⟩

variable {s} {cx : Context} {target : Target} {server : Server} {type : RecordType} {w : World}

theorem query_apply : s.query cx target server type w =
    Query.run s.network (s.messageId w) s.config cx target server type w := by
  change (world >>= fun v =>
    Query.run s.network (s.messageId v) s.config cx target server type) w = _
  rw [bind_of_returned rfl, World.after_zero_nil, Report.behind_zero_nil]

theorem query_endsBy (cx : Context) (target : Target) (server : Server) (type : RecordType) :
    Obeys (EndsBy cx cx.deadline) (s.query cx target server type) := by
  intro w
  rw [query_apply]
  exact Query.run_endsBy _ _ _ cx target server type w

theorem query_endsWithin (h : 0 < s.config.timeout) (cx : Context) (target : Target)
    (server : Server) (type : RecordType) :
    EndsWithin s.config.timeout (s.query cx target server type) := by
  intro w
  rw [query_apply]
  exact Query.run_endsWithin _ _ cx target server type h w

theorem query_overflowsFor (cx : Context) (target : Target) (server : Server)
    (type : RecordType) :
    Obeys (OverflowsFor s.config.timeout) (s.query cx target server type) := by
  intro w
  rw [query_apply]
  exact Query.run_overflowsFor _ _ _ cx target server type w

theorem queries_query {e : Ending Answer} {n : Nat} {es : List Event}
    (h : s.query cx target server type w = ⟨e, n, es⟩) :
    Trace.queries es = [s.seen (server, type)] := by
  rw [query_apply] at h
  have hq : Trace.queries (Query.run s.network (s.messageId w) s.config cx target server type
      w).events = [s.seen (server, type)] := Query.queries_run
  rw [h] at hq
  exact hq

theorem queries_asks {log : List Asked} {m : Nat} {es : List Event}
    (h : Asks (s.query cx target) w log m es) :
    Trace.queries es = (log.map Asked.question).map s.seen := by
  have hview := h.view Trace.queries rfl Trace.queries_append (f := fun q => [s.seen q.question])
    fun _ _ _ _ => queries_query
  rw [hview, List.map_map]
  exact List.map_eq_flatMap.symm

theorem queries_of_pending {log : List Asked} {q : Server × RecordType} {m k : Nat}
    {es fs : List Event} {d : Ending Answer} (h : Asks (s.query cx target) w log m es)
    (hq : s.query cx target q.1 q.2 (w.after m es) = ⟨d, k, fs⟩) :
    Trace.queries (es ++ fs) = (log.map Asked.question ++ [q]).map s.seen := by
  rw [Trace.queries_append, queries_asks h, queries_query hq, List.map_append]
  rfl

theorem answered_asks {log : List Asked} {m : Nat} {es : List Event}
    (h : Asks (s.query cx target) w log m es) : Trace.answered es = gathered log := by
  apply h.view Trace.answered rfl Trace.answered_append
  intro q v n fs hq
  rw [query_apply] at hq
  rw [Query.answered_run hq, Asked.addresses]
  cases q.answer with
  | ok addrs => rfl
  | error f => rfl

theorem readOff_asks {log : List Asked} {m : Nat} {es : List Event}
    (h : Asks (s.query cx target) w log m es) : s.ReadOff target log (Trace.accepted es) := by
  induction log generalizing w m es with
  | nil =>
    cases h
    exact .nil
  | cons q log ih =>
    obtain ⟨server, type, answer⟩ := q
    obtain ⟨m, es, k, gs, hq, hlog, rfl, rfl⟩ := h.of_cons
    rw [query_apply] at hq
    rw [Trace.accepted_append]
    rcases Query.run_accepted hq with ⟨f, rfl, hnone⟩ | ⟨reply, rfl, hone, hanswers⟩
    · rw [hnone]
      exact .failed (ih hlog)
    · rw [hone]
      exact .replied hanswers (Message.yields_iff.mpr rfl) (ih hlog)

theorem query_avoids_disorder (cx : Context) (target : Target) (server : Server)
    (type : RecordType) : Obeys (Avoids .disorder) (s.query cx target server type) := by
  intro w
  rw [query_apply]
  exact Query.run_avoids_disorder _ _ _ cx target server type w

/-- Only a query that has all the time there is can wait for ever. -/
theorem query_stalled {v : World} {k : Nat} {fs : List Event}
    (h : s.query cx target server type v = ⟨.stalled, k, fs⟩) :
    s.config.timeout = 0 ∧ cx.cutoff v.cancellations cx.deadline = none := by
  constructor
  · by_contra hne
    have := (query_endsWithin (Nat.pos_of_ne_zero hne) cx target server type v).1
    rw [h] at this
    exact this rfl
  · cases hc : cx.cutoff v.cancellations cx.deadline with
    | none => rfl
    | some t =>
      have := (query_endsBy cx target server type).report h t ⟨t, hc, Nat.le_refl t⟩
      exact absurd rfl this.1

theorem cutoff_eq_none_of_after {m : Nat} {es : List Event}
    (h : cx.cutoff (w.after m es).cancellations cx.deadline = none) :
    cx.cutoff w.cancellations cx.deadline = none := by
  cases hc : cx.cutoff w.cancellations cx.deadline with
  | none => rfl
  | some t =>
    have hcomes : Clock.ComesBy (cx.cutoff w.cancellations cx.deadline) t := ⟨t, hc, Nat.le_refl t⟩
    obtain ⟨u, hu, _⟩ : Clock.ComesBy (cx.cutoff (w.after m es).cancellations cx.deadline) t :=
      Context.comesBy_cutoff_append hcomes
    rw [h] at hu
    cases hu

theorem askServers_apply (family : Family) (host : String) : s.askServers cx family host target w =
    (askAll (s.query cx target) family.recordTypes (.ofHost host .notFound) (s.serverOrder w) none
      >>= s.conclude) w := by
  change (world >>= fun v => _) w = _
  rw [bind_of_returned rfl, World.after_zero_nil, Report.behind_zero_nil]
  refine congrFun (bind_congr fun answer => ?_) w
  cases answer with
  | error f => rfl
  | ok addrs => rfl

/-- What the walk comes to is put in order, which takes no time. -/
theorem askServers_of_returned {family : Family} {host : String} {answer : Answer}
    {e : Ending Answer} {m : Nat} {es : List Event}
    (h : askAll (s.query cx target) family.recordTypes (.ofHost host .notFound) (s.serverOrder w)
      none w = ⟨.returned answer, m, es⟩)
    (he : Arranged s.source answer e) :
    ∃ fs, Probes fs ∧ s.askServers cx family host target w = ⟨e, m, es ++ fs⟩ := by
  obtain ⟨fs, hfs, hconclude⟩ := conclude_apply s he (w.after m es)
  refine ⟨fs, hfs, ?_⟩
  rw [askServers_apply, bind_of_returned h, hconclude]
  rfl

theorem askServers_ending {family : Family} {host : String} {answer : Answer} {e : Ending Answer}
    (h : (askAll (s.query cx target) family.recordTypes (.ofHost host .notFound) (s.serverOrder w)
      none w).ending = .returned answer)
    (he : Arranged s.source answer e) : (s.askServers cx family host target w).ending = e := by
  generalize hwalk : askAll (s.query cx target) _ _ _ none w = walk at h
  obtain ⟨ending, m, es⟩ := walk
  cases h
  obtain ⟨fs, _, hrun⟩ := askServers_of_returned hwalk he
  rw [hrun]

theorem askServers_walked (s : Stub) (cx : Context) (family : Family) (host : String)
    (target : Target) (w : World) :
    Walked s cx family host target w (s.askServers cx family host target w) := by
  obtain ⟨log, m, es, hs, h⟩ := askAll_cases (s.query cx target) (s.serverOrder w)
    family.recordTypes (.ofHost host .notFound) w
  rcases h with ⟨answer, hended, h⟩ | ⟨q, d, e, k, fs, hwaiting, hq, hd, h⟩
  · obtain ⟨e, harranged⟩ := Arranged.exists_ending s.source answer
    obtain ⟨fs, hfs, hrun⟩ := askServers_of_returned h harranged
    rw [hrun]
    refine .ended hs hended harranged hfs ?_ ?_
    · rw [Trace.queries_append, queries_asks hs, hfs.queries_eq_nil, List.append_nil]
    · rw [Trace.accepted_append, hfs.accepted_eq_nil, List.append_nil]
      exact readOff_asks hs
  · rw [askServers_apply]
    cases hd with
    | stalled =>
      rw [bind_of_halts h .stalled]
      obtain ⟨ht, hcut⟩ := query_stalled hq
      exact .stalled hs hwaiting hq ⟨ht, cutoff_eq_none_of_after hcut⟩ (queries_of_pending hs hq)
    | overflow =>
      rw [bind_of_halts h .overflow]
      have hclock := (query_overflowsFor cx target q.1 q.2).report hq rfl
      rw [World.now_after, Nat.add_assoc] at hclock
      exact .overflow hs hwaiting hq hclock (queries_of_pending hs hq)
    | disorder => exact absurd rfl ((query_avoids_disorder cx target q.1 q.2).report hq)

theorem lookupName_eq {host text : String} {name : DomainName}
    (h : DomainName.ofHost? host = some (text, name)) {family : Family} :
    s.lookupName cx family host = s.askServers cx family host ⟨text, name⟩ := by
  have hsupported : s.config.protocol.isSupported = true := by
    cases s.config.protocol <;> rfl
  unfold lookupName
  rw [h]
  exact if_pos hsupported

/-- How a lookup is handled: a literal address of the family and a host that cannot be looked up on
the spot, and all else by asking the servers. -/
inductive Handled (s : Stub) (cx : Context) (network host : String) : Activity Answer → Prop where
  | literal {family : Family} {a : Address} : Family.ofNetwork? network = some family →
      family.includes a = true → Handled s cx network host (Pure.pure (.ok [a]))
  | failed (cause : Cause) : cause = .notFound ∨ cause = .unsupportedNetwork →
      Handled s cx network host (Pure.pure (.error (.ofHost host cause)))
  | asked {family : Family} (target : Target) : Family.ofNetwork? network = some family →
      DomainName.ofHost? host = some (target.text, target.name) →
      Handled s cx network host (s.askServers cx family host target)

theorem resolver_eq_askServers {network host text : String} {name : DomainName} {family : Family}
    (hf : Family.ofNetwork? network = some family) (ha : Address.ofString? host = none)
    (hn : DomainName.ofHost? host = some (text, name)) :
    s.resolver cx network host = s.askServers cx family host ⟨text, name⟩ := by
  unfold resolver Family.ofNetwork Literal.answer?
  rw [hf, ha, ← lookupName_eq hn]
  rfl

theorem resolver_handled (s : Stub) (cx : Context) (network host : String) :
    Handled s cx network host (s.resolver cx network host) := by
  unfold resolver Family.ofNetwork
  cases hf : Family.ofNetwork? network with
  | none => exact .failed _ (.inr rfl)
  | some family =>
    dsimp only
    unfold Literal.answer?
    cases Address.ofString? host with
    | none =>
      cases h : DomainName.ofHost? host with
      | none =>
        unfold lookupName
        rw [h]
        exact .failed _ (.inl rfl)
      | some named =>
        rw [lookupName_eq h]
        exact .asked _ hf h
    | some a =>
      rw [Option.map_some, Family.accept]
      by_cases ha : family.includes a = true
      · rw [if_pos ha]
        exact .literal hf ha
      · rw [if_neg ha]
        exact .failed _ (.inl rfl)

theorem serverOrder_perm (s : Stub) (w : World) : (s.serverOrder w).Perm s.config.servers := by
  unfold serverOrder
  split
  · exact rearrange_perm _ _
  · exact .refl _

/-- Looking up a name walks over the servers, in the configured order unless they are rotated, and
comes to what the walk comes to. -/
theorem lookupName_walks (s : Stub) (cx : Context) (family : Family) (host : String) (w : World)
    {text : String} {name : DomainName} (h : DomainName.ofHost? host = some (text, name)) :
    (s.serverOrder w).Perm s.config.servers ∧
      (s.config.rotate = false → s.serverOrder w = s.config.servers) ∧
      Walked s cx family host ⟨text, name⟩ w (s.lookupName cx family host w) := by
  refine ⟨serverOrder_perm s w, fun hr => ?_, ?_⟩
  · unfold serverOrder
    rw [hr]
    rfl
  · rw [lookupName_eq h]
    exact askServers_walked s cx family host _ w

/-- A reply to a question for the IPv6 addresses of `example`. -/
def replyWith (as : List V6) : Octets :=
  let name : DomainName := ⟨[[101, 120, 97, 109, 112, 108, 101]]⟩
  let question : Question := ⟨name, RecordType.aaaa.code, Question.internet⟩
  let header : Header := ⟨0, 0x81, 0x80, 1, UInt16.ofNat as.length, 0, 0⟩
  let record (a : V6) : Record := ⟨name, RecordType.aaaa.code, 1, (0, 3600), a.octets⟩
  header.encode ++ question.encode ++ (as.map record).flatMap Record.encode

/-- A stub resolver whose server has many addresses that contradict each other. -/
def contrary : Stub where
  config := Config.initial.addServer (.ofAddress (.v4 .localhost))
  network _ _ _ := ⟨0, .connected (.datagram
    ⟨fun os => .ok os.length, fun _ => [⟨0, .ok (replyWith contraryAddresses)⟩]⟩)⟩
  source := contrarySource
  messageId _ := 0
  draws _ := []

/-- The name that its server is asked for. -/
def exampleTarget : Target := ⟨"example.", ⟨[[101, 120, 97, 109, 112, 108, 101]]⟩⟩

theorem ofHost?_example :
    DomainName.ofHost? "example" = some (exampleTarget.text, exampleTarget.name) := by
  decide +kernel

set_option maxRecDepth 4096 in
theorem contrary_asked :
    (askAll (contrary.query (.ofToken (.root 0)) exampleTarget) Family.v6.recordTypes
        (.ofHost "example" .notFound) (contrary.serverOrder .initial) none .initial).ending =
      .returned (.ok (contraryAddresses.map .v6)) := by
  cbv

theorem contrary_disorder :
    (contrary.askServers (.ofToken (.root 0)) .v6 "example" exampleTarget .initial).ending =
      .disorder :=
  askServers_ending contrary_asked arranged_contrary

/-- Of three addresses among the many that the server has, the second one is reached from an IPv4
address. It is as good as the first and the third, but these are not as good as each other. -/
theorem lookupName_walks_contrary :
    let r := contrary.lookupName (.ofToken (.root 0)) .v6 "example" .initial
    DomainName.ofHost? "example" = some (exampleTarget.text, exampleTarget.name) ∧
      r.ending = .disorder ∧
      (contrary.serverOrder .initial).Perm contrary.config.servers ∧
      (contrary.config.rotate = false → contrary.serverOrder .initial = contrary.config.servers) ∧
      Walked contrary (.ofToken (.root 0)) .v6 "example" exampleTarget .initial r := by
  intro r
  refine ⟨ofHost?_example, ?_, lookupName_walks _ _ _ _ _ ofHost?_example⟩
  change (contrary.lookupName _ _ _ _).ending = _
  rw [lookupName_eq ofHost?_example]
  exact contrary_disorder

end Stub

end HostLookup
