import HostLookup.Proofs.Query.CutShort
import HostLookup.Proofs.Stub.Attribution
import HostLookup.Proofs.Stub.Timeliness

/-!
What becomes of a lookup that its context interrupts. From the query on during which the context
gets done, every query is cut short, down to the last server and type. If the lookup fails, it
reports the first query that failed, and that one may have failed before and for another reason.
-/
set_option autoImplicit false

namespace HostLookup

open Activity

namespace Servers

/-- The question is answered with a timeout. -/
def Asked.TimedOut (q : Asked) : Prop := ∃ f, q.answer = .error f ∧ f.TimedOut

theorem Asked.TimedOut.failures_cons {q : Asked} (h : q.TimedOut) (log : List Asked) :
    ∃ f, f.TimedOut ∧ failures (q :: log) = f :: failures log := by
  obtain ⟨f, hq, hf⟩ := h
  refine ⟨f, hf, ?_⟩
  simp [failures, Asked.failure?, hq]

end Servers

namespace Stub

open Servers

variable {s : Stub} {cx : Context} {target : Target} {server : Server} {type : RecordType}
variable {w : World} {n : Nat} {es : List Event} {log before : List Asked} {q : Asked}

/-- The context interrupts the last of some questions: it is done by the time that this one is
answered. -/
def Interrupts (s : Stub) (cx : Context) (target : Target) (w : World) (log : List Asked) : Prop :=
  ∃ m es, Asks (s.query cx target) w log m es ∧
    cx.isDone (w.after m es).cancellations (w.after m es).now = true

theorem timedOut_of_isDone (h : s.query cx target q.server q.type w = ⟨.returned q.answer, n, es⟩)
    (hdone : cx.isDone (w.after n es).cancellations (w.after n es).now = true) : q.TimedOut := by
  rw [query_apply] at h
  exact Query.timedOut_of_isDone h hdone

/-- There is no time for any question that is asked when the context is done. -/
theorem timedOut_of_mem_asks (hdone : cx.isDone w.cancellations w.now = true)
    (h : Asks (s.query cx target) w log n es) (hq : q ∈ log) : q.TimedOut := by
  induction log generalizing w n es with
  | nil => cases hq
  | cons r log ih =>
    obtain ⟨m, es, k, gs, hr, hlog, rfl, rfl⟩ := h.of_cons
    have hafter := isDone_after hdone m es
    rcases List.mem_cons.mp hq with rfl | hq
    · exact timedOut_of_isDone hr hafter
    · exact ih hafter hlog hq

/-- Once the context interrupts a question, it interrupts all that follow. -/
theorem Interrupts.timedOut {after : List Asked} (hi : s.Interrupts cx target w (before ++ [q]))
    (h : Asks (s.query cx target) w (before ++ q :: after) n es) :
    ∀ r ∈ q :: after, r.TimedOut := by
  obtain ⟨m, ds, hasked, hdone⟩ := hi
  rw [List.append_cons] at h
  obtain ⟨i, ds', k, gs, hasked', hafter, _, _⟩ := h.of_append
  obtain ⟨rfl, rfl⟩ := hasked.unique hasked'
  intro r hr
  rcases List.mem_cons.mp hr with rfl | hr
  · obtain ⟨j, cs, l, fs, _, hlast, rfl, rfl⟩ := hasked.of_append
    obtain ⟨l, fs, z, zs, hanswer, hnil, rfl, rfl⟩ := hlast.of_cons
    cases hnil
    rw [Nat.add_zero, List.append_nil, ← World.after_after] at hdone
    exact timedOut_of_isDone hanswer hdone
  · exact timedOut_of_mem_asks hdone hafter hr

/-- What a failed lookup comes to, if its context interrupts the question behind some others. -/
structure Interrupted (s : Stub) (network : String) (w : World) (log before : List Asked)
    (f : Failure) : Prop where
  exhausted : log.map Asked.question = s.serverOrder w ×ˢ typesFor network
  timedOut : ∀ r ∈ log.drop before.length, r.TimedOut
  first : (failures log).head? = some f
  isTimeout_iff : f.isTimeout = true ↔
    ∀ g, (failures before).head? = some g → g.isTimeout = true

theorem interrupted_of_ended {network : String} {family : Family} {none f : Failure}
    {after : List Asked} (hf : Family.ofNetwork? network = some family)
    (ht : ∀ r ∈ q :: after, r.TimedOut)
    (hended : Ended (s.serverOrder w) family.recordTypes none (before ++ q :: after) (.error f)) :
    s.Interrupted network w (before ++ q :: after) before f := by
  obtain ⟨g, hg, hfailures⟩ := (ht q List.mem_cons_self).failures_cons after
  have hhead : (failures (before ++ q :: after)).head? =
      some ((failures before).head?.getD g) := by
    rw [failures_append, hfailures, List.head?_append]
    cases (failures before).head? <;> rfl
  have hverdict := hended.verdict
  generalize hlog : before ++ q :: after = log at hverdict hhead
  cases hverdict with
  | fatal hends =>
    -- The last answer would be final, but it is a timeout.
    obtain ⟨init, r, rfl, hr, hfatal⟩ := hends
    have hlast : r ∈ q :: after := by
      have hl := congrArg List.getLast? hlog
      rw [List.getLast?_append_of_ne_nil _ (List.cons_ne_nil q after), List.getLast?_concat] at hl
      exact List.mem_of_getLast? hl
    obtain ⟨e, he, htimed⟩ := ht r hlast
    rw [hr] at he
    cases he
    rw [← Failure.isFatal_iff, htimed.not_isFatal] at hfatal
    cases hfatal
  | exhausted hquestions _ _ =>
    subst hlog
    rw [hhead]
    refine ⟨?_, ?_, hhead, ?_⟩
    · rw [hquestions, typesFor, hf]
      rfl
    · rwa [List.drop_left]
    · cases (failures before).head? with
      | none => simp [hg.2]
      | some e => simp

/-- A lookup that its context interrupts and that fails has asked every server for every type, each
one behind the interruption in vain. It reports the first query that failed, flagged as a timeout
unless that query failed before the interruption and for another reason. -/
theorem failure_of_interruption {network host : String} {f : Failure}
    (h : (s.resolver cx network host w).ending = .returned (.error f)) :
    ∃ target log m es fs, Asks (s.query cx target) w log m es ∧ Selection.Probes fs ∧
      s.resolver cx network host w = ⟨.returned (.error f), m, es ++ fs⟩ ∧
      ∀ before q, before ++ [q] <+: log → s.Interrupts cx target w (before ++ [q]) →
        s.Interrupted network w log before f := by
  have hhandled := resolver_handled s cx network host
  generalize s.resolver cx network host = lookup at h hhandled
  cases hhandled with
  | literal => cases h
  | failed cause =>
    cases h
    refine ⟨⟨host, .root⟩, [], 0, [], [], .nil _ w, .nil, rfl, ?_⟩
    intro before q hq
    simp at hq
  | @asked family target hf =>
    have hwalked := askServers_walked s cx family host target w
    generalize s.askServers cx family host target w = r at h hwalked
    cases hwalked with
    | stalled => cases h
    | overflow => cases h
    | @ended log answer e m es fs hs hended harranged hfs _ _ =>
      cases h
      cases harranged
      refine ⟨target, log, m, es, fs, hs, hfs, rfl, ?_⟩
      rintro before q ⟨after, rfl⟩ hi
      rw [← List.append_cons] at hs hended ⊢
      exact interrupted_of_ended hf (hi.timedOut hs) hended

/-- A stub resolver whose server refuses the first connection and does not answer on others. -/
def refusing : Stub :=
  { ofDialEnd .never with
    network := fun _ _ n => ⟨0, if n = 0 then .failed (.of .connectionRefused) else .never⟩ }

/-- A context that ends after ten milliseconds. -/
def brief : Context := ⟨some 10, .root 0⟩

/-- The failure of the first query. -/
def refusal : Failure :=
  ⟨⟨"example.", some (.of (.v4 .localhost) 53)⟩, Query.transport (.of .connectionRefused)⟩

theorem refusing_answer : refusing.resolver brief "ip" "example" .initial =
    ⟨.returned (.error refusal), 10,
      [⟨0, .queried (.of (.v4 .localhost) 53) .a⟩, ⟨0, .dialed .udp (.of (.v4 .localhost) 53)⟩,
        ⟨0, .queried (.of (.v4 .localhost) 53) .aaaa⟩,
        ⟨0, .dialed .udp (.of (.v4 .localhost) 53)⟩]⟩ := by
  have hnetwork : Family.ofNetwork? "ip" = some .any := rfl
  have hliteral : Address.ofString? "example" = none := by decide +kernel
  have hname : DomainName.ofHost? "example" =
      some ("example.", ⟨[[101, 120, 97, 109, 112, 108, 101]]⟩) := by decide +kernel
  rw [resolver_eq_askServers hnetwork hliteral hname]
  cbv

theorem failure_of_interruption_refusing :
    (refusing.resolver brief "ip" "example" .initial).ending = .returned (.error refusal) ∧
      ∃ target log m es fs, Asks (refusing.query brief target) .initial log m es ∧
        Selection.Probes fs ∧
        refusing.resolver brief "ip" "example" .initial =
          ⟨.returned (.error refusal), m, es ++ fs⟩ ∧
        ∀ before q, before ++ [q] <+: log →
          refusing.Interrupts brief target .initial (before ++ [q]) →
          refusing.Interrupted "ip" .initial log before refusal := by
  have hending : (refusing.resolver brief "ip" "example" .initial).ending =
      .returned (.error refusal) := by rw [refusing_answer]
  exact ⟨hending, failure_of_interruption hending⟩

/-- The context interrupts the second query of a lookup, which fails, but not with a timeout. -/
theorem interruption_not_reported :
    let target : Target := ⟨"example.", ⟨[[101, 120, 97, 109, 112, 108, 101]]⟩⟩
    let server : Server := .ofAddress (.v4 .localhost)
    let first : Asked := ⟨server, .a, .error refusal⟩
    let second : Asked := ⟨server, .aaaa, .error ⟨refusal.subject, Query.interrupted⟩⟩
    ∃ es, Asks (refusing.query brief target) .initial [first, second] 10 es ∧
      refusing.Interrupts brief target .initial [first, second] ∧
      refusing.resolver brief "ip" "example" .initial = ⟨.returned (.error refusal), 10, es⟩ ∧
      refusal.isTimeout = false := by
  intro target server first second
  have hasks : Asks (refusing.query brief target) .initial [first, second] 10
      (refusing.resolver brief "ip" "example" .initial).events := by
    rw [refusing_answer]
    cbv
  refine ⟨_, hasks, ⟨_, _, hasks, ?_⟩, ?_, rfl⟩
  · rw [refusing_answer]
    decide
  · rw [refusing_answer]

end Stub

end HostLookup
