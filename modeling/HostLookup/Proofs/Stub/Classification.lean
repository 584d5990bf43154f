import HostLookup.Proofs.Query.Origin
import HostLookup.Proofs.Stub.Lookup

/-!
How the failures of lookups are classified. Whichever way a failure takes through the checks of the
host, the queries, and the choice among their failures, its flags and its server fit its cause, and
a timeout tells by its flags in which step of the query it was raised.
-/
set_option autoImplicit false

namespace HostLookup

open Activity

namespace Failure

/-- A failure's flags fit its cause and the protocol, if `Cut` are the steps that its query was cut
short in. -/
structure Consistent (f : Failure) (protocol : Protocol) (Cut : Query.Step → Prop) : Prop where
  isTimeout_iff : f.isTimeout = true ↔ f.cause = .timeout
  isTemporary_iff : f.isTemporary = true ↔ (∃ e, f.cause = .transport e) ∨
    f.cause = .serverMisbehaving .serverFailure ∨
    f.cause = .timeout ∧ (Cut .dialing ∨ Cut .exchange)
  exists_cut : f.cause = .timeout → ∃ step, Cut step
  lasting_of_cut : Cut .handshake → f.isTemporary = false
  tls_of_lasting : f.cause = .timeout → f.isTemporary = false → protocol = .tls
  tls_of_handshake : ∀ e, f.cause = .handshake e → protocol = .tls
  rcode_ne : ∀ rcode, f.cause = .serverMisbehaving rcode → rcode ≠ .noError ∧ rcode ≠ .nameError
  notFound : f.isNotFound = true → f.isTemporary = false ∧ f.isTimeout = false
  fatal : f.isFatal = true → f.isTemporary = false ∧ f.isTimeout = false ∧ f.isNotFound = false

variable {f : Failure} {protocol : Protocol} {Cut : Query.Step → Prop} {cause : Cause}

theorem isNotFound_iff : f.isNotFound = true ↔ f.cause = .notFound := by
  unfold isNotFound
  exact beq_iff_eq

theorem lasting_of_cut (hcut : ∀ step, Cut step → f.detail = step.onCut) (h : Cut .handshake) :
    f.isTemporary = false := by
  rw [isTemporary, hcut _ h]
  rfl

theorem consistent_of_raised (h : Query.Raised protocol Cut f.detail)
    (hcut : ∀ step, Cut step → f.detail = step.onCut) : f.Consistent protocol Cut where
  isTimeout_iff := h.timeout_iff
  isTemporary_iff := h.temporary_iff hcut
  exists_cut := h.exists_cut
  lasting_of_cut := lasting_of_cut hcut
  tls_of_lasting := h.tls_of_lasting
  tls_of_handshake _ := h.tls_of_handshake
  rcode_ne _ := h.rcode_ne
  notFound hf := h.lasting (.inl (isNotFound_iff.mp hf))
  fatal hf := by
    obtain ⟨hnetwork, hprotocol⟩ := h.supported
    have hfinal := isFatal_iff.mp hf
    generalize hcause : f.cause = cause at hfinal
    cases hfinal with
    | unsupportedNetwork => exact absurd hcause hnetwork
    | unsupportedProtocol => exact absurd hcause hprotocol
    | handshake e =>
      obtain ⟨htemporary, htimeout⟩ := h.lasting (.inr ⟨e, hcause⟩)
      refine ⟨htemporary, htimeout, ?_⟩
      rw [← Bool.not_eq_true, isNotFound_iff, hcause]
      exact nofun

/-- A failure before any query is final, and no step was cut short for it. -/
theorem consistent_ofHost {host : String} (h : cause = .notFound ∨ cause = .unsupportedNetwork)
    (hcut : ∀ step, Cut step → (ofHost host cause).detail = step.onCut) :
    (ofHost host cause).Consistent protocol Cut := by
  rcases h with rfl | rfl
  · exact consistent_of_raised .denied hcut
  · constructor
    all_goals simp [isTimeout, isTemporary, cause, ofHost, isNotFound, isFatal]

end Failure

namespace Stub

open Servers

/-- A query of a lookup, the world in which it is begun, and that the lookup reports its failure: it
is the first one, or a final one. -/
inductive Reports (s : Stub) (cx : Context) (network host : String) (w : World) (f : Failure) :
    Target → Server → RecordType → World → Prop where
  | query {family : Family} {target : Target} {server : Server} {type : RecordType}
      {before : List Asked} {m n : Nat} {es fs : List Event} :
      Family.ofNetwork? network = some family →
      DomainName.ofHost? host = some (target.text, target.name) →
      before.map Asked.question ++ [(server, type)] <+: s.serverOrder w ×ˢ family.recordTypes →
      Asks (s.query cx target) w before m es → failures before = [] ∨ f.isFatal = true →
      s.query cx target server type (w.after m es) = ⟨.returned (.error f), n, fs⟩ →
      es ++ fs <+: (s.resolver cx network host w).events →
      Reports s cx network host w f target server type (w.after m es)

/-- The query whose failure a lookup reports is cut short in a step. -/
def RaisedIn (s : Stub) (cx : Context) (network host : String) (w : World) (f : Failure)
    (step : Query.Step) : Prop :=
  ∃ target server type v, s.Reports cx network host w f target server type v ∧
    Query.RunCutIn s.network (s.messageId v) s.config cx target server type v step

/-- What holds of every failure of a lookup. -/
structure Classified (s : Stub) (cx : Context) (network host : String) (w : World)
    (f : Failure) : Prop extends
    f.Consistent s.config.protocol (s.RaisedIn cx network host w f) where
  name : f.name = host ∨ f.name = host.push '.'
  server : ∀ a, f.server = some a →
    ∃ server ∈ s.config.servers, a = server.endpoint s.config.protocol

variable {s : Stub} {cx : Context} {network host : String} {w : World} {f : Failure}

theorem exists_first_failure {log : List Asked} (h : (failures log).head? = some f) :
    ∃ before q after, log = before ++ q :: after ∧ q.answer = .error f ∧ failures before = [] := by
  induction log with
  | nil => cases h
  | cons q log ih =>
    cases hanswer : q.answer with
    | error g =>
      have hfirst : failures (q :: log) = g :: failures log := by
        simp [failures, Asked.failure?, hanswer]
      rw [hfirst] at h
      cases h
      exact ⟨[], q, log, rfl, hanswer, rfl⟩
    | ok addrs =>
      have hrest : failures (q :: log) = failures log := by
        simp [failures, Asked.failure?, hanswer]
      rw [hrest] at h
      obtain ⟨before, r, after, rfl, hr, hnone⟩ := ih h
      refine ⟨q :: before, r, after, rfl, hr, ?_⟩
      simpa [failures, Asked.failure?, hanswer] using hnone

/-- Of the queries that were asked, one that failed is reported if it was the first that did, or for
good. -/
theorem reports_of_asks {family : Family} {target : Target} {before after : List Asked} {q : Asked}
    {m : Nat} {es fs : List Event} (hf : Family.ofNetwork? network = some family)
    (hname : DomainName.ofHost? host = some (target.text, target.name))
    (hasks : Asks (s.query cx target) w (before ++ q :: after) m es)
    (hquestions : (before ++ q :: after).map Asked.question <+:
      s.serverOrder w ×ˢ family.recordTypes)
    (hevents : (s.resolver cx network host w).events = es ++ fs) (hq : q.answer = .error f)
    (hfirst : failures before = [] ∨ f.isFatal = true) :
    ∃ target server type v, s.Reports cx network host w f target server type v := by
  obtain ⟨i, ds, _, _, hbefore, hrest, _, rfl⟩ := hasks.of_append
  obtain ⟨_, gs, _, hs, hquery, _, _, rfl⟩ := hrest.of_cons
  rw [hq] at hquery
  have hbegins : before.map Asked.question ++ [q.question] <+:
      (before ++ q :: after).map Asked.question := by
    rw [List.map_append, List.map_cons]
    exact (List.prefix_append_right_inj _).mpr (List.prefix_append [q.question] _)
  refine ⟨target, q.server, q.type, _, .query hf hname (hbegins.trans hquestions) hbefore hfirst
    hquery ?_⟩
  rw [hevents, ← List.append_assoc, List.append_assoc]
  exact List.prefix_append _ _

/-- A failed lookup failed before any query, asked none that failed, or reports one that did. -/
theorem failure_cases (h : (s.resolver cx network host w).ending = .returned (.error f)) :
    (∃ cause, (cause = .notFound ∨ cause = .unsupportedNetwork) ∧ f = .ofHost host cause) ∨
      ∃ target server type v, s.Reports cx network host w f target server type v := by
  have hhandled := resolver_handled s cx network host
  generalize hlookup : s.resolver cx network host = lookup at h hhandled
  cases hhandled with
  | literal => cases h
  | failed cause hcause =>
    cases h
    exact .inl ⟨cause, hcause, rfl⟩
  | @asked family target hf hname =>
    have hwalked := askServers_walked s cx family host target w
    rw [← hlookup] at h hwalked
    generalize hr : s.resolver cx network host w = r at h hwalked
    cases hwalked with
    | stalled => cases h
    | overflow => cases h
    | @ended log answer e m es fs hs hended harranged hfs _ _ =>
      cases h
      cases harranged
      have hevents : (s.resolver cx network host w).events = es ++ fs := by rw [hr]
      cases hended.verdict with
      | fatal hends =>
        obtain ⟨before, q, rfl, hq, hfatal⟩ := hends
        exact .inr (reports_of_asks hf hname hs hended.isPrefix hevents hq
          (.inr (Failure.isFatal_iff.mpr hfatal)))
      | exhausted =>
        cases hfirst : (failures log).head? with
        | none => exact .inl ⟨.notFound, .inl rfl, rfl⟩
        | some g =>
          obtain ⟨before, q, after, rfl, hq, hnone⟩ := exists_first_failure hfirst
          exact .inr (reports_of_asks hf hname hs hended.isPrefix hevents hq (.inl hnone))

theorem name_of_ofHost? {host text : String} {name : DomainName}
    (h : DomainName.ofHost? host = some (text, name)) : text = host ∨ text = host.push '.' := by
  unfold DomainName.ofHost? at h
  split at h
  · cases h
  · obtain ⟨n, _, hn⟩ := Option.map_eq_some_iff.mp h
    cases hn
    split
    · exact .inl rfl
    · exact .inr rfl

namespace Reports

variable {target : Target} {server : Server} {type : RecordType} {v : World}
variable (h : s.Reports cx network host w f target server type v)
include h

theorem raised :
    f.subject = (Subject.host target.text).withServer (server.endpoint s.config.protocol) ∧
      Query.Raised s.config.protocol
        (Query.RunCutIn s.network (s.messageId v) s.config cx target server type v) f.detail := by
  obtain ⟨_, _, _, _, _, hquery, _⟩ := h
  rw [query_apply] at hquery
  exact Query.run_raised hquery

theorem detail_eq {step : Query.Step}
    (hstep : Query.RunCutIn s.network (s.messageId v) s.config cx target server type v step) :
    f.detail = step.onCut := by
  obtain ⟨_, _, _, _, _, hquery, _⟩ := h
  rw [query_apply] at hquery
  exact Query.run_of_cutIn hquery hstep

theorem name : target.text = host ∨ target.text = host.push '.' := by
  obtain ⟨_, hname, _, _, _, _, _⟩ := h
  exact name_of_ofHost? hname

theorem server_mem : server ∈ s.config.servers := by
  obtain ⟨_, _, hbegins, _, _, _, _⟩ := h
  have hmem := hbegins.subset (List.mem_append_right _ (List.mem_singleton_self (server, type)))
  exact (serverOrder_perm s w).mem_iff.mp (List.mem_product.mp hmem).1

end Reports

/-- Every failure of a lookup is about the host and one of the servers, if any, and is flagged as
its cause says; a timeout is temporary exactly if it was raised while dialing or exchanging. -/
theorem failure_classified (h : (s.resolver cx network host w).ending = .returned (.error f)) :
    s.Classified cx network host w f := by
  have hcut : ∀ step, s.RaisedIn cx network host w f step → f.detail = step.onCut := by
    rintro step ⟨target, server, type, v, hreports, hstep⟩
    exact hreports.detail_eq hstep
  rcases failure_cases h with ⟨cause, hcause, rfl⟩ | ⟨target, server, type, v, hreports⟩
  · exact ⟨Failure.consistent_ofHost hcause hcut, .inl rfl, nofun⟩
  · obtain ⟨hsubject, hraised⟩ := hreports.raised
    refine ⟨Failure.consistent_of_raised (hraised.imp fun step hstep => ?_) hcut, ?_, ?_⟩
    · exact ⟨target, server, type, v, hreports, hstep⟩
    · rw [Failure.name, hsubject]
      exact hreports.name
    · intro a ha
      rw [Failure.server, hsubject] at ha
      cases ha
      exact ⟨server, hreports.server_mem, rfl⟩

/-- A stub resolver whose server takes part in no handshake. -/
def mute : Stub :=
  let s := ofDialEnd (.connected (.stream ⟨none, none, fun _ => [], fun _ => ⟨0, .never⟩⟩))
  { s with config := { s.config with protocol := .tls } }

/-- A timeout that is not temporary. -/
def muteFailure : Failure := ⟨⟨"example.", some (.of (.v4 .localhost) 853)⟩, .of .timeout⟩

theorem mute_answer : (mute.resolver ⟨some 10, .root 0⟩ "ip" "example" .initial).ending =
    .returned (.error muteFailure) := by
  have hnetwork : Family.ofNetwork? "ip" = some .any := rfl
  have hliteral : Address.ofString? "example" = none := by decide +kernel
  have hname : DomainName.ofHost? "example" =
      some ("example.", ⟨[[101, 120, 97, 109, 112, 108, 101]]⟩) := by decide +kernel
  rw [resolver_eq_askServers hnetwork hliteral hname]
  cbv

theorem failure_classified_mute :
    (mute.resolver ⟨some 10, .root 0⟩ "ip" "example" .initial).ending =
        .returned (.error muteFailure) ∧
      mute.Classified ⟨some 10, .root 0⟩ "ip" "example" .initial muteFailure ∧
      muteFailure.isTimeout = true ∧ muteFailure.isTemporary = false :=
  ⟨mute_answer, failure_classified mute_answer, rfl, rfl⟩

end Stub

end HostLookup
