import HostLookup.Proofs.Servers.Settled
import HostLookup.Proofs.Stub.Attribution
import HostLookup.Proofs.Stub.Families

/-!
Lookups that ask the same servers in different orders. If what comes of a query depends on the
server and the record type only, and is never a final failure, the order does not decide whether
there are addresses, nor whether there is a failure to report. It may decide whether the addresses
can be put in order, since other servers' addresses may contradict each other or not.
-/
set_option autoImplicit false

namespace HostLookup.Stub

open Activity Selection Servers

variable {s : Stub} {cx : Context} {family : Family} {host text : String} {name : DomainName}
variable {w : World} {o : Outcomes}

/-- What the endings of two lookups over the same servers have to do with each other. Both are
decided by the outcomes of all pairs and by the sources of the addresses. -/
structure Concur (o : Outcomes) (servers : List Server) (types : List RecordType) (none : Failure)
    (source : Address → Option Address) (e e' : Ending Answer) : Prop where
  decided : ∃ answer, o.Decides servers types none answer ∧ Arranged source answer e
  decided' : ∃ answer, o.Decides servers types none answer ∧ Arranged source answer e'
  error_iff : (∃ f, e = .returned (.error f)) ↔ ∃ f, e' = .returned (.error f)
  ok_iff_iff : ((∃ addrs, e = .returned (.ok addrs)) ↔ ∃ addrs, e' = .returned (.ok addrs)) ↔
    (e = .disorder ↔ e' = .disorder)
  eq_of_agree : o.Agree servers types → (∀ f, e ≠ .returned (.error f)) → e = e'
  errors : ∀ f f', e = .returned (.error f) → e' = .returned (.error f') →
    o.Fails servers types f ∧ o.Fails servers types f' ∨ f = none ∧ f' = none
  none_iff : ∀ f f', e = .returned (.error f) → e' = .returned (.error f') →
    (f = none ∧ f' = none ↔ ∀ g, ¬ o.Fails servers types g)

section

variable {servers : List Server} {types : List RecordType} {none : Failure}
variable {source : Address → Option Address} {answer answer' : Answer} {e e' : Ending Answer}
variable (h : o.Decides servers types none answer) (h' : o.Decides servers types none answer')
variable (he : Arranged source answer e) (he' : Arranged source answer' e')
include h h' he he'

theorem exists_error_iff_of_decides :
    (∃ f, e = .returned (.error f)) ↔ ∃ f, e' = .returned (.error f) := by
  rw [exists_congr he.error_iff, exists_congr he'.error_iff, h.exists_error_iff,
    h'.exists_error_iff]

/-- Whether there are addresses is the same for both, and addresses come to a result if they can be
put in order. -/
theorem ok_iff_iff_of_decides :
    ((∃ addrs, e = .returned (.ok addrs)) ↔ ∃ addrs, e' = .returned (.ok addrs)) ↔
      (e = .disorder ↔ e' = .disorder) := by
  have hok := h.exists_ok_iff.trans h'.exists_ok_iff.symm
  have hdisorder : e = .disorder → ∃ as, answer = .ok as := by
    rintro rfl
    exact he.exists_ok_of_disorder
  have hdisorder' : e' = .disorder → ∃ as, answer' = .ok as := by
    rintro rfl
    exact he'.exists_ok_of_disorder
  rw [he.exists_ok_iff, he'.exists_ok_iff]
  tauto

theorem eq_of_decides (hagree : o.Agree servers types) (hne : ∀ f, e ≠ .returned (.error f)) :
    e = e' := by
  cases answer with
  | error f => exact absurd ((he.error_iff f).mpr rfl) (hne f)
  | ok addrs =>
    obtain ⟨addrs', rfl⟩ := (h.exists_ok_iff.trans h'.exists_ok_iff.symm).mp ⟨addrs, rfl⟩
    rw [h.eq_of_agree h' hagree] at he
    exact he.unique he'

theorem concur_of_decides (hnone : (∃ f, answer = .error f) → ¬ o.Fails servers types none) :
    Concur o servers types none source e e' where
  decided := ⟨answer, h, he⟩
  decided' := ⟨answer', h', he'⟩
  error_iff := exists_error_iff_of_decides h h' he he'
  ok_iff_iff := ok_iff_iff_of_decides h h' he he'
  eq_of_agree := eq_of_decides h h' he he'
  errors f f' hf hf' := by
    rw [he.error_iff] at hf
    rw [he'.error_iff] at hf'
    subst hf hf'
    exact h.errors h'
  none_iff f f' hf hf' := by
    rw [he.error_iff] at hf
    rw [he'.error_iff] at hf'
    subst hf hf'
    exact h.none_iff h' (hnone ⟨f, rfl⟩)

end

/-- No query fails without naming its server. -/
theorem ofHost_ne_of_query {target : Target} {server : Server} {type : RecordType} {v : World}
    {n : Nat} {es : List Event} {f : Failure}
    (h : s.query cx target server type v = ⟨.returned (.error f), n, es⟩) (cause : Cause) :
    f ≠ .ofHost host cause := by
  rintro rfl
  exact nomatch query_error_server h

section

variable (hn : DomainName.ofHost? host = some (text, name))
variable (hs : Settled (s.query cx ⟨text, name⟩) (s.serverOrder w) family.recordTypes w o)
variable (hsoft : ∀ f, o.Fails (s.serverOrder w) family.recordTypes f → ¬ f.cause.IsFinal)
include hn hs hsoft

theorem lookupName_decides :
    ∃ answer, Arranged s.source answer (s.lookupName cx family host w).ending ∧
      o.Decides (s.serverOrder w) family.recordTypes (.ofHost host .notFound) answer ∧
      ((∃ f, answer = .error f) →
        ¬ o.Fails (s.serverOrder w) family.recordTypes (.ofHost host .notFound)) := by
  obtain ⟨answer, n, es, hrun, hdecides, hall⟩ := hs.askAll_decides hsoft (.ofHost host .notFound)
  refine ⟨answer, ?_, hdecides, ?_⟩
  · obtain ⟨e, harranged⟩ := Arranged.exists_ending s.source answer
    obtain ⟨fs, _, hlookup⟩ := askServers_of_returned hrun harranged
    rw [lookupName_eq hn, hlookup]
    exact harranged
  · rintro ⟨f, hf⟩ ⟨server, hserver, type, htype, hfails⟩
    obtain ⟨v, k, fs, hquery⟩ := hall f hf server hserver type htype
    rw [hfails] at hquery
    exact ofHost_ne_of_query hquery .notFound rfl

end

/-- Two lookups over the same servers, in whatever orders, have both a failure to report or neither.
If both have addresses, both come to a result unless one cannot put its addresses in order, and they
come to the same if the servers that have any addresses have the same ones. The failures are those of
queries or, just if no query failed, that there is no such host. -/
theorem lookupName_concur {t : Stub} {dx : Context} {v : World}
    (hn : DomainName.ofHost? host = some (text, name))
    (hperm : (s.serverOrder w).Perm (t.serverOrder v)) (hsource : t.source = s.source)
    (hs : Settled (s.query cx ⟨text, name⟩) (s.serverOrder w) family.recordTypes w o)
    (ht : Settled (t.query dx ⟨text, name⟩) (t.serverOrder v) family.recordTypes v o)
    (hsoft : ∀ f, o.Fails (s.serverOrder w) family.recordTypes f → ¬ f.cause.IsFinal) :
    Concur o (s.serverOrder w) family.recordTypes (.ofHost host .notFound) s.source
      (s.lookupName cx family host w).ending (t.lookupName dx family host v).ending := by
  obtain ⟨answer, he, hdecides, hnone⟩ := lookupName_decides hn hs hsoft
  obtain ⟨answer', he', hdecides', _⟩ := lookupName_decides hn ht fun f hf =>
    hsoft f (hf.perm hperm.symm)
  rw [hsource] at he'
  -- Both are decided by the outcomes of the same pairs.
  exact concur_of_decides hdecides (hdecides'.perm hperm.symm) he he' hnone

/-- A stub resolver of whose servers the local one has many addresses that contradict each other,
and any other one has a single address. -/
def partlyContrary (servers : List Server) : Stub :=
  let reply (server : Endpoint) : Octets :=
    replyWith (if server.address = .v4 .localhost then contraryAddresses
      else contraryAddresses.take 1)
  { contrary with
    config := servers.foldl Config.addServer .initial
    network := fun _ server _ => ⟨0, .connected (.datagram
      ⟨fun os => .ok os.length, fun _ => [⟨0, .ok (reply server)⟩]⟩)⟩ }

def crowded : Server := .ofAddress (.v4 .localhost)

def single : Server := .ofAddress (.v4 ⟨127, 0, 0, 2⟩)

def partlyContraryOutcomes : Outcomes := fun server _ =>
  .ok ((if server = crowded then contraryAddresses else contraryAddresses.take 1).map .v6)

section

set_option maxRecDepth 4096

theorem settled_crowded_single :
    Settled ((partlyContrary [crowded, single]).query (.ofToken (.root 0)) exampleTarget)
      [crowded, single] Family.v6.recordTypes .initial partlyContraryOutcomes := by
  apply Settled.of_mapM
  cbv

theorem settled_single_crowded :
    Settled ((partlyContrary [single, crowded]).query (.ofToken (.root 0)) exampleTarget)
      [single, crowded] Family.v6.recordTypes .initial partlyContraryOutcomes := by
  apply Settled.of_mapM
  cbv

theorem crowded_single_asked :
    (askAll ((partlyContrary [crowded, single]).query (.ofToken (.root 0)) exampleTarget)
        Family.v6.recordTypes (.ofHost "example" .notFound)
        ((partlyContrary [crowded, single]).serverOrder .initial) none .initial).ending =
      .returned (.ok (contraryAddresses.map .v6)) := by
  cbv

end

theorem crowded_single_disorder :
    ((partlyContrary [crowded, single]).lookupName (.ofToken (.root 0)) .v6 "example"
      .initial).ending = .disorder := by
  rw [lookupName_eq ofHost?_example]
  exact askServers_ending crowded_single_asked arranged_contrary

theorem single_crowded_answer :
    ((partlyContrary [single, crowded]).lookupName (.ofToken (.root 0)) .v6 "example"
      .initial).ending = .returned (.ok [.v6 ⟨0x2a00, 0, 0, 0, 0, 0, 0, 1⟩]) := by
  rw [lookupName_eq ofHost?_example]
  cbv

/-- The lookup that asks the server with one address first succeeds, and the other one cannot put in
order what it finds. -/
theorem lookupName_concur_contrary :
    let s := partlyContrary [crowded, single]
    let t := partlyContrary [single, crowded]
    let cx := .ofToken (.root 0)
    DomainName.ofHost? "example" = some (exampleTarget.text, exampleTarget.name) ∧
      (s.serverOrder .initial).Perm (t.serverOrder .initial) ∧ t.source = s.source ∧
      Settled (s.query cx exampleTarget) (s.serverOrder .initial) Family.v6.recordTypes .initial
        partlyContraryOutcomes ∧
      Settled (t.query cx exampleTarget) (t.serverOrder .initial) Family.v6.recordTypes .initial
        partlyContraryOutcomes ∧
      (∀ f, partlyContraryOutcomes.Fails (s.serverOrder .initial) Family.v6.recordTypes f →
        ¬ f.cause.IsFinal) ∧
      (s.lookupName cx .v6 "example" .initial).ending = .disorder ∧
      (t.lookupName cx .v6 "example" .initial).ending =
        .returned (.ok [.v6 ⟨0x2a00, 0, 0, 0, 0, 0, 0, 1⟩]) ∧
      Concur partlyContraryOutcomes (s.serverOrder .initial) Family.v6.recordTypes
        (.ofHost "example" .notFound) s.source
        (s.lookupName cx .v6 "example" .initial).ending
        (t.lookupName cx .v6 "example" .initial).ending := by
  intro s t cx
  have hperm : (s.serverOrder .initial).Perm (t.serverOrder .initial) := .swap single crowded []
  have hsoft : ∀ f, partlyContraryOutcomes.Fails (s.serverOrder .initial) Family.v6.recordTypes f →
      ¬ f.cause.IsFinal := by
    rintro f ⟨server, _, type, _, hf⟩
    cases hf
  exact ⟨ofHost?_example, hperm, rfl, settled_crowded_single, settled_single_crowded, hsoft,
    crowded_single_disorder, single_crowded_answer,
    lookupName_concur ofHost?_example hperm rfl settled_crowded_single settled_single_crowded hsoft⟩

end HostLookup.Stub
