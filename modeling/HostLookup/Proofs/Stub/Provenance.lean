import HostLookup.Proofs.Query.Replies
import HostLookup.Proofs.Search.Denial
import HostLookup.Proofs.Stub.Classification
import HostLookup.Proofs.Stub.Families
import HostLookup.Proofs.Stub.Literals
import HostLookup.Proofs.Stub.Quitting

/-!
Where the addresses of a lookup come from. Those of a candidate that is no literal address stand in a
reply of a configured server. A candidate that is one is answered without asking anybody, also if it
was not the host that is a literal address but only the host with the search list's suffix.
-/
set_option autoImplicit false

namespace HostLookup

open Activity Servers

namespace Trace

theorem questions_append (es fs : List Event) :
    questions (es ++ fs) = questions es ++ questions fs := List.filterMap_append

theorem questions_eq_nil {es : List Event} (h : ∀ e ∈ es, ¬ e.deed.IsQuestion) :
    questions es = [] := by
  apply List.filterMap_eq_nil_iff.mpr
  intro e he
  have := h e he
  split
  · exact absurd ⟨_, _, by assumption⟩ this
  · rfl

end Trace

namespace Search

variable {ask : String → Activity Answer} {cx : Context} {w : World} {n : Nat} {es : List Event}

theorem Tries.concat {front : List Trial} {t : Trial} (h : Tries ask cx w (front ++ [t]) n es) :
    ∃ m ds k fs, Tries ask cx w front m ds ∧
      ask t.name (w.after m ds) = ⟨.returned t.answer, k, fs⟩ ∧ es = ds ++ fs := by
  induction front generalizing w n es with
  | nil =>
    cases h with
    | @cons _ _ _ m k es fs hask _ hrest =>
      cases hrest
      exact ⟨0, [], m, es, .nil w, by rwa [World.after_zero_nil], by simp⟩
  | cons u front ih =>
    cases h with
    | @cons _ _ _ m k es fs hask hd hrest =>
      obtain ⟨i, ds, j, gs, htries, hlast, rfl⟩ := ih hrest
      rw [World.after_after] at hlast
      exact ⟨_, _, j, gs, .cons hask hd htries, hlast, (List.append_assoc _ _ _).symm⟩

/-- What no question contributes to, a run of questions does not contribute to, either. -/
theorem Tries.view_eq_nil {β : Type} (view : List Event → List β) (hnil : view [] = [])
    (happ : ∀ es fs, view (es ++ fs) = view es ++ view fs) {log : List Trial}
    (h : Tries ask cx w log n es)
    (hask : ∀ t ∈ log, ∀ v k fs, ask t.name v = ⟨.returned t.answer, k, fs⟩ → view fs = []) :
    view es = [] := by
  induction h with
  | nil => exact hnil
  | cons hq _ _ ih =>
    rw [happ, hask _ List.mem_cons_self _ _ _ hq, List.nil_append]
    exact ih fun t ht => hask t (List.mem_cons_of_mem _ ht)

end Search

namespace Stub

variable {s : Stub} {cx : Context} {network host : String} {w : World} {n : Nat} {es : List Event}

/-- A reply without error to a query for records of a host, which was begun among the events. -/
def Replied (s : Stub) (host : String) (es : List Event) (server : Server) (reply : Message) :
    Prop :=
  ∃ (target : Target) (type : RecordType) (v : World),
    DomainName.ofHost? host = some (target.text, target.name) ∧
      Query.begun s.config server type v ∈ es ∧
      Query.Brings (server.endpoint s.config.protocol) ⟨s.messageId v, target.name, type⟩ reply es

/-- An address in a record of the answer section of such a reply, from a configured server. -/
def Supplied (s : Stub) (host : String) (es : List Event) (a : Address) : Prop :=
  ∃ server ∈ s.config.servers, ∃ reply, s.Replied host es server reply ∧
    ∃ r ∈ reply.answerRecords, r.address? = some a

theorem Supplied.mono {a : Address} {fs : List Event} (h : s.Supplied host es a) (hsub : es ⊆ fs) :
    s.Supplied host fs a := by
  obtain ⟨server, hserver, reply, ⟨target, type, v, hn, hbegun, hbrings⟩, hr⟩ := h
  exact ⟨server, hserver, reply, ⟨target, type, v, hn, hsub hbegun, hbrings.mono hsub⟩, hr⟩

theorem Supplied.mem_answered {a : Address} (h : s.Supplied host es a) :
    a ∈ Trace.answered es := by
  obtain ⟨server, _, reply, ⟨_, _, _, _, _, hbrings⟩, r, hr, ha⟩ := h
  refine Trace.mem_answered.mpr ⟨_, reply, hbrings.mem_replies, hbrings.noError, ?_⟩
  exact List.mem_filterMap.mpr ⟨r, hr, ha⟩

theorem query_supplied {target : Target} {server : Server} {type : RecordType} {v : World}
    {addrs : List Address} (hn : DomainName.ofHost? host = some (target.text, target.name))
    (hserver : server ∈ s.config.servers)
    (h : s.query cx target server type v = ⟨.returned (.ok addrs), n, es⟩) {a : Address}
    (ha : a ∈ addrs) : s.Supplied host es a := by
  rw [query_apply] at h
  obtain ⟨reply, hbrings, rfl⟩ := Query.run_brings h
  obtain ⟨_, _, fs, _, _, _, rfl⟩ := Query.run_returned h
  refine ⟨server, hserver, reply, ⟨target, type, v, hn, List.mem_cons_self, hbrings⟩, ?_⟩
  exact List.mem_filterMap.mp ha

theorem asks_supplied {target : Target} {types : List RecordType} {log : List Asked}
    (hn : DomainName.ofHost? host = some (target.text, target.name))
    (h : Asks (s.query cx target) w log n es)
    (hlog : log.map Asked.question <+: s.serverOrder w ×ˢ types) {a : Address}
    (ha : a ∈ gathered log) : s.Supplied host es a := by
  obtain ⟨q, hq, hqa⟩ := List.mem_flatMap.mp ha
  have hserver : q.server ∈ s.config.servers :=
    (serverOrder_perm s w).mem_iff.mp
      (List.mem_product.mp (hlog.subset (List.mem_map_of_mem hq))).1
  obtain ⟨before, after, rfl⟩ := List.append_of_mem hq
  obtain ⟨_, ds, _, _, _, hrest, _, rfl⟩ := h.of_append
  obtain ⟨_, fs, _, gs, hquery, _, _, rfl⟩ := hrest.of_cons
  have hsub : fs ⊆ ds ++ (fs ++ gs) :=
    List.Subset.trans (List.subset_append_left fs gs) (List.subset_append_right ds _)
  rw [Asked.addresses] at hqa
  cases hanswer : q.answer with
  | error f =>
    rw [hanswer] at hqa
    cases hqa
  | ok addrs =>
    rw [hanswer] at hquery hqa
    exact (query_supplied hn hserver hquery hqa).mono hsub

/-- A literal address is answered with itself, if at all, and nothing happens. -/
theorem resolver_of_literal {literal : Address} (h : Address.ofString? host = some literal) :
    ∃ answer, s.resolver cx network host w = ⟨.returned answer, 0, []⟩ ∧
      ∀ addrs, answer = .ok addrs → addrs = [literal] := by
  refine ⟨Literal.answer network host, ?_, ?_⟩
  · rw [resolver_literal h]
    rfl
  · intro addrs hok
    have hsettles : Literal.Settles network host literal (.ok addrs) :=
      hok ▸ Literal.settles_answer h
    exact hsettles.eq_singleton

theorem resolver_eq_lookupName {family : Family} (hf : Family.ofNetwork? network = some family)
    (h : Address.ofString? host = none) :
    s.resolver cx network host = s.lookupName cx family host := by
  unfold resolver Family.ofNetwork Literal.answer?
  rw [hf, h]
  rfl

theorem resolver_supplied {addrs : List Address} (hliteral : Address.ofString? host = none)
    (h : s.resolver cx network host w = ⟨.returned (.ok addrs), n, es⟩) {a : Address}
    (ha : a ∈ addrs) : s.Supplied host es a := by
  cases hf : Family.ofNetwork? network with
  | none =>
    rw [resolver, Family.ofNetwork, hf] at h
    cases h
  | some family =>
    rw [resolver_eq_lookupName hf hliteral] at h
    cases hn : DomainName.ofHost? host with
    | none =>
      rw [lookupName, hn] at h
      cases h
    | some named =>
      obtain ⟨text, name⟩ := named
      rw [lookupName_eq hn] at h
      have hwalked := askServers_walked s cx family host ⟨text, name⟩ w
      rw [h] at hwalked
      cases hwalked with
      | @ended log answer _ m es fs hs hended harranged _ _ _ =>
        -- Of all endings of a walk only those with addresses of a server are left.
        cases harranged with
        | @sorted found _ _ hp =>
          cases hended.verdict with
          | served _ _ hg =>
            have hfound := hp.mem_iff.mp ha
            rw [← hg] at hfound
            have hsupplied : s.Supplied host es a := asks_supplied hn hs hended.isPrefix hfound
            exact hsupplied.mono (List.subset_append_left es fs)

/-- After a failure that is final for a lookup, no other candidate is tried. -/
theorem not_goesOn_of_endsFatally {target : Target} {log : List Asked} {f : Failure}
    (h : Asks (s.query cx target) w log n es) (hends : EndsFatally log f) :
    Search.goesOn f = false := by
  obtain ⟨before, q, rfl, hq, hfatal⟩ := hends
  obtain ⟨_, _, _, _, _, hlast, _, _⟩ := h.of_append
  obtain ⟨_, _, _, _, hquery, _, _, _⟩ := hlast.of_cons
  rw [hq, query_apply] at hquery
  obtain ⟨_, hraised⟩ := Query.run_raised hquery
  have hconsistent :=
    Failure.consistent_of_raised hraised fun step hstep => Query.run_of_cutIn hquery hstep
  obtain ⟨htemporary, _, hnotFound⟩ := hconsistent.fatal (Failure.isFatal_iff.mpr hfatal)
  rw [Search.goesOn, hnotFound, htemporary]
  rfl

/-- A lookup that is followed by that of another candidate has brought no address. -/
theorem answered_of_goesOn {f : Failure}
    (h : s.resolver cx network host w = ⟨.returned (.error f), n, es⟩)
    (hf : Search.goesOn f = true) : Trace.answered es = [] := by
  have hhandled := resolver_handled s cx network host
  generalize s.resolver cx network host = lookup at h hhandled
  cases hhandled with
  | literal => cases h
  | failed cause =>
    cases h
    rfl
  | @asked family target _ hn =>
    have hwalked := askServers_walked s cx family host target w
    rw [h] at hwalked
    cases hwalked with
    | @ended log answer _ m es fs hs hended harranged hfs _ _ =>
      cases harranged
      rw [Trace.answered_append, answered_asks hs, hfs.answered_eq_nil, List.append_nil]
      cases hended.verdict with
      | fatal hends =>
        -- It would have ended the search.
        rw [not_goesOn_of_endsFatally hs hends] at hf
        cases hf
      | exhausted _ _ hg => exact hg

theorem search_ask_apply (name : String) : s.search.ask cx network name w =
    (s.resolver cx network name w).behind 0 [⟨w.now, .asked network name⟩] :=
  Search.ask_apply s.search cx network name w

theorem ask_returned {name : String} {answer : Answer}
    (h : s.search.ask cx network name w = ⟨.returned answer, n, es⟩) :
    ∃ fs, s.resolver cx network name w = ⟨.returned answer, n, fs⟩ ∧
      es = ⟨w.now, .asked network name⟩ :: fs := by
  rw [search_ask_apply] at h
  generalize s.resolver cx network name w = r at h ⊢
  obtain ⟨ending, m, fs⟩ := r
  rw [Report.behind, Nat.zero_add] at h
  cases h
  exact ⟨fs, rfl, rfl⟩

theorem questions_of_ask {name : String} {answer : Answer}
    (h : s.search.ask cx network name w = ⟨.returned answer, n, es⟩) :
    Trace.questions es = [(network, name)] := by
  obtain ⟨fs, hrun, rfl⟩ := ask_returned h
  have hfs := (resolver_asksNothing (s := s) cx network name).report hrun
  exact congrArg ((network, name) :: ·) (Trace.questions_eq_nil hfs)

theorem answered_of_ask {t : Search.Trial} (hgoes : t.goesOn = true)
    (h : s.search.ask cx network t.name w = ⟨.returned t.answer, n, es⟩) :
    Trace.answered es = [] := by
  obtain ⟨fs, hrun, rfl⟩ := ask_returned h
  have hnone : Trace.answered fs = [] := by
    cases hanswer : t.answer with
    | ok addrs =>
      rw [Search.Trial.not_goesOn_of_ok hanswer] at hgoes
      cases hgoes
    | error f =>
      rw [hanswer] at hrun
      refine answered_of_goesOn hrun ?_
      rw [Search.Trial.goesOn, Search.Trial.failure?, hanswer, Bool.and_eq_true] at hgoes
      exact hgoes.1
  exact (Trace.answered_append [⟨w.now, .asked network t.name⟩] fs).trans hnone

/-- A lookup by the search list that brings addresses ends with that of a candidate, and what came
before has brought none. -/
theorem search_ok {addrs : List Address}
    (h : s.search.resolver cx network host w = ⟨.returned (.ok addrs), n, es⟩) :
    ∃ ds name v k fs, name ∈ Search.candidates s.config.search s.config.ndots host ∧
      Trace.answered ds = [] ∧ s.search.ask cx network name v = ⟨.returned (.ok addrs), k, fs⟩ ∧
      es = ds ++ fs := by
  cases hf : Family.ofNetwork? network with
  | none =>
    rw [Search.resolver, Family.ofNetwork, hf] at h
    cases h
  | some family =>
    have hsearched := (Search.tryAll_tried (s.search.ask cx network) cx (.ofHost host .notFound)
      none (Search.candidates s.search.list s.search.ndots host) w).searched
      (Search.candidates_ne_nil _ _ _)
    rw [Search.resolver_eq _ hf] at h
    rw [h] at hsearched
    cases hsearched with
    | halted _ _ _ hd => cases hd
    | @returned log _ _ _ hs hi hok _ =>
      -- The last trial is the one with an answer; all before it were gone on from.
      obtain ⟨t, hlast, ht⟩ := (hok addrs).mp rfl
      obtain ⟨front, rfl⟩ := List.getLast?_eq_some_iff.mp hlast
      obtain ⟨_, ds, k, fs, hfront, hask, rfl⟩ := hs.concat
      refine ⟨ds, t.name, _, k, fs, ?_, ?_, ht ▸ hask, rfl⟩
      · exact hi.isPrefix.subset (by simp)
      · refine hfront.view_eq_nil Trace.answered rfl Trace.answered_append fun u hu v _ _ => ?_
        exact answered_of_ask (hi.goesOn_of_mem_dropLast (by simpa using hu))

/-- Each address of a lookup by the search list was supplied by a server just if the last candidate
that was asked for is no literal address. If it is one, that is the answer, and no server has supplied
any address. -/
theorem search_supplied_iff {addrs : List Address}
    (h : s.search.resolver cx network host w = ⟨.returned (.ok addrs), n, es⟩) :
    ∃ name ∈ Search.candidates s.config.search s.config.ndots host,
      (Trace.questions es).getLast? = some (network, name) ∧
      ((∀ a ∈ addrs, ∃ candidate ∈ Search.candidates s.config.search s.config.ndots host,
          s.Supplied candidate es a) ↔ Address.ofString? name = none) ∧
      ∀ literal, Address.ofString? name = some literal →
        addrs = [literal] ∧ Trace.answered es = [] := by
  obtain ⟨ds, name, v, k, fs, hname, hds, hask, rfl⟩ := search_ok h
  have hliteral : ∀ literal, Address.ofString? name = some literal →
      addrs = [literal] ∧ Trace.answered (ds ++ fs) = [] := by
    intro literal hl
    obtain ⟨gs, hrun, rfl⟩ := ask_returned hask
    obtain ⟨answer, hr, hanswer⟩ := resolver_of_literal hl
    rw [hr] at hrun
    cases hrun
    refine ⟨hanswer addrs rfl, ?_⟩
    rw [Trace.answered_append, hds]
    rfl
  refine ⟨name, hname, ?_, ?_, hliteral⟩
  · rw [Trace.questions_append, questions_of_ask hask, List.getLast?_concat]
  · constructor
    · intro hsupplied
      cases hl : Address.ofString? name with
      | none => rfl
      | some literal =>
        obtain ⟨rfl, hnone⟩ := hliteral literal hl
        obtain ⟨_, _, ha⟩ := hsupplied literal List.mem_cons_self
        have hmem := ha.mem_answered
        rw [hnone] at hmem
        cases hmem
    · intro hl a ha
      obtain ⟨gs, hrun, rfl⟩ := ask_returned hask
      refine ⟨name, hname, (resolver_supplied hl hrun ha).mono ?_⟩
      exact List.Subset.trans (List.subset_cons_self _ gs) (List.subset_append_right ds _)

/-- A stub resolver with a search list, whose server sends the stray reply. -/
def strayingWith (list : SearchList) : Stub :=
  { straying with config := { straying.config with search := list } }

theorem strayingWith_answer (list : SearchList) :
    ((strayingWith list).search.resolver (.ofToken (.root 0)) "ip4" "example." .initial).ending =
      .returned (.ok [.v4 ⟨192, 0, 2, 1⟩, .v6 ⟨0x2001, 0xdb8, 0, 0, 0, 0, 0, 1⟩]) := by
  have hnetwork : Family.ofNetwork? "ip4" = some .v4 := rfl
  have hcomplete : Search.isComplete "example." = true := by decide +kernel
  have hliteral : Address.ofString? "example." = none := by decide +kernel
  have hname : DomainName.ofHost? "example." =
      some ("example.", ⟨[[101, 120, 97, 109, 112, 108, 101]]⟩) := by decide +kernel
  rw [Search.resolver_eq _ hnetwork, Search.candidates_eq_singleton (.inr hcomplete),
    Search.tryAll_singleton, search_ask_apply, resolver_eq_askServers hnetwork hliteral hname]
  cbv

/-- The search list is a suffix of numbers. -/
def numbered : Stub := strayingWith (.ofValid ["0.2.1"])

theorem numbered_answer : numbered.search.resolver (.ofToken (.root 0)) "ip4" "192" .initial =
    ⟨.returned (.ok [.v4 ⟨192, 0, 2, 1⟩]), 0, [⟨0, .asked "ip4" "192.0.2.1"⟩]⟩ := by
  have hnetwork : Family.ofNetwork? "ip4" = some .v4 := rfl
  have hcandidates : Search.candidates numbered.search.list numbered.search.ndots "192" =
      ["192.0.2.1", "192"] := by decide +kernel
  have hliteral : Address.ofString? "192.0.2.1" = some (.v4 ⟨192, 0, 2, 1⟩) := by decide +kernel
  rw [Search.resolver_eq _ hnetwork, hcandidates]
  apply Search.tryAll_ok
  rw [search_ask_apply]
  unfold resolver Family.ofNetwork Literal.answer?
  rw [hnetwork, hliteral]
  rfl

/-- The host `192` is no literal address, but its candidate `192.0.2.1` is, and is the answer although
no server was asked. The addresses of `example.` are from the stray reply. -/
theorem search_supplied_iff_numbered :
    let candidates := Search.candidates numbered.config.search numbered.config.ndots
    let cx := .ofToken (.root 0)
    let found : List Address := [.v4 ⟨192, 0, 2, 1⟩, .v6 ⟨0x2001, 0xdb8, 0, 0, 0, 0, 0, 1⟩]
    Address.ofString? "192" = none ∧
      numbered.search.resolver cx "ip4" "192" .initial =
        ⟨.returned (.ok [.v4 ⟨192, 0, 2, 1⟩]), 0, [⟨0, .asked "ip4" "192.0.2.1"⟩]⟩ ∧
      (¬ ∀ a ∈ [.v4 ⟨192, 0, 2, 1⟩], ∃ candidate ∈ candidates "192",
        numbered.Supplied candidate [⟨0, .asked "ip4" "192.0.2.1"⟩] a) ∧
      ∃ n es, numbered.search.resolver cx "ip4" "example." .initial = ⟨.returned (.ok found), n, es⟩ ∧
        ∀ a ∈ found, ∃ candidate ∈ candidates "example.", numbered.Supplied candidate es a := by
  intro candidates cx found
  refine ⟨by decide +kernel, numbered_answer, ?_, ?_⟩
  · intro hsupplied
    obtain ⟨name, _, hlast, hiff, _⟩ := search_supplied_iff numbered_answer
    cases hlast
    have hnone : Address.ofString? "192.0.2.1" = none := hiff.mp hsupplied
    have hsome : Address.ofString? "192.0.2.1" ≠ none := by decide +kernel
    exact hsome hnone
  · have hanswer : (numbered.search.resolver cx "ip4" "example." .initial).ending = _ :=
      strayingWith_answer _
    cases hrun : numbered.search.resolver cx "ip4" "example." .initial with
    | mk ending n es =>
      rw [hrun] at hanswer
      cases hanswer
      obtain ⟨name, hname, _, hiff, _⟩ := search_supplied_iff hrun
      refine ⟨n, es, rfl, hiff.mpr ?_⟩
      have hall : ∀ name ∈ candidates "example.", Address.ofString? name = none := by
        decide +kernel
      exact hall name hname

end Stub

end HostLookup
