import HostLookup.Proofs.Servers.Outcome

/-!
Walks over servers whose answers are settled beforehand. If what comes of a question depends on the
server and the record type only, and is never a final failure, what a walk can come to is told by
the outcomes of all pairs, in whatever order the servers are asked.
-/
set_option autoImplicit false

namespace HostLookup.Servers

/-- What comes of a question to a server for a type of records. -/
abbrev Outcomes := Server → RecordType → Answer

namespace Outcomes

/-- The answers of a server for all types. -/
def row (o : Outcomes) (types : List RecordType) (server : Server) : List Asked :=
  types.map fun type => ⟨server, type, o server type⟩

/-- Some question fails in this way. -/
def Fails (o : Outcomes) (servers : List Server) (types : List RecordType) (f : Failure) : Prop :=
  ∃ server ∈ servers, ∃ type ∈ types, o server type = .error f

/-- No server has any address. -/
def Barren (o : Outcomes) (servers : List Server) (types : List RecordType) : Prop :=
  ∀ server ∈ servers, gathered (o.row types server) = []

/-- The servers that have any address have the same ones, type by type. -/
def Agree (o : Outcomes) (servers : List Server) (types : List RecordType) : Prop :=
  ∀ a ∈ servers, ∀ b ∈ servers, gathered (o.row types a) ≠ [] → gathered (o.row types b) ≠ [] →
    (o.row types a).map Asked.addresses = (o.row types b).map Asked.addresses

/-- What a walk can come to, in terms of the outcomes of all pairs: the addresses of a server that
has any; if there is none, a failure of a pair; and `none` if there is neither. -/
inductive Decides (o : Outcomes) (servers : List Server) (types : List RecordType)
    (none : Failure) : Answer → Prop where
  | served {server : Server} : server ∈ servers → gathered (o.row types server) ≠ [] →
      Decides o servers types none (.ok (gathered (o.row types server)))
  | failed {f : Failure} : o.Barren servers types → o.Fails servers types f →
      Decides o servers types none (.error f)
  | empty : o.Barren servers types → (∀ f, ¬ o.Fails servers types f) →
      Decides o servers types none (.error none)

variable {o : Outcomes} {servers servers' : List Server} {types : List RecordType}

theorem Fails.perm {f : Failure} (h : o.Fails servers types f) (hp : servers.Perm servers') :
    o.Fails servers' types f := by
  obtain ⟨server, hserver, htype⟩ := h
  exact ⟨server, hp.mem_iff.mp hserver, htype⟩

theorem Barren.perm (h : o.Barren servers types) (hp : servers.Perm servers') :
    o.Barren servers' types :=
  fun server hserver => h server (hp.mem_iff.mpr hserver)

theorem Decides.perm {none : Failure} {answer : Answer} (h : o.Decides servers types none answer)
    (hp : servers.Perm servers') : o.Decides servers' types none answer := by
  cases h with
  | served hserver hg => exact .served (hp.mem_iff.mp hserver) hg
  | failed hb hf => exact .failed (hb.perm hp) (hf.perm hp)
  | empty hb hf => exact .empty (hb.perm hp) fun f h => hf f (h.perm hp.symm)

theorem Agree.gathered_eq (h : o.Agree servers types) {a b : Server} (ha : a ∈ servers)
    (hb : b ∈ servers) (hga : gathered (o.row types a) ≠ [])
    (hgb : gathered (o.row types b) ≠ []) :
    gathered (o.row types a) = gathered (o.row types b) := by
  rw [gathered, gathered, List.flatMap_def, List.flatMap_def, h a ha b hb hga hgb]

section

variable {none : Failure} {answer : Answer}

theorem Decides.exists_ok_iff (h : o.Decides servers types none answer) :
    (∃ addrs, answer = .ok addrs) ↔ ¬ o.Barren servers types := by
  cases h with
  | served hserver hg => exact iff_of_true ⟨_, rfl⟩ fun hb => hg (hb _ hserver)
  | failed hb => exact iff_of_false nofun (not_not_intro hb)
  | empty hb => exact iff_of_false nofun (not_not_intro hb)

theorem Decides.exists_error_iff (h : o.Decides servers types none answer) :
    (∃ f, answer = .error f) ↔ o.Barren servers types := by
  cases h with
  | served hserver hg => exact iff_of_false nofun fun hb => hg (hb _ hserver)
  | failed hb => exact iff_of_true ⟨_, rfl⟩ hb
  | empty hb => exact iff_of_true ⟨_, rfl⟩ hb

theorem Decides.error_cases {f : Failure} (h : o.Decides servers types none (.error f)) :
    o.Fails servers types f ∨ f = none ∧ ∀ g, ¬ o.Fails servers types g := by
  cases h with
  | failed _ hf => exact .inl hf
  | empty _ hf => exact .inr ⟨rfl, hf⟩

theorem Decides.eq_of_agree {addrs addrs' : List Address}
    (h : o.Decides servers types none (.ok addrs))
    (h' : o.Decides servers types none (.ok addrs')) (hagree : o.Agree servers types) :
    addrs = addrs' := by
  cases h with
  | served hserver hg =>
    cases h' with
    | served hserver' hg' => exact hagree.gathered_eq hserver hserver' hg hg'

theorem Decides.errors {f f' : Failure} (h : o.Decides servers types none (.error f))
    (h' : o.Decides servers types none (.error f')) :
    o.Fails servers types f ∧ o.Fails servers types f' ∨ f = none ∧ f' = none := by
  rcases h.error_cases with hf | ⟨rfl, hf⟩
  · rcases h'.error_cases with hf' | ⟨_, hf'⟩
    · exact .inl ⟨hf, hf'⟩
    · exact absurd hf (hf' f)
  · exact .inr ⟨rfl, h'.error_cases.elim (fun hf' => absurd hf' (hf f')) And.left⟩

theorem Decides.none_iff {f f' : Failure} (h : o.Decides servers types none (.error f))
    (h' : o.Decides servers types none (.error f')) (hnone : ¬ o.Fails servers types none) :
    f = none ∧ f' = none ↔ ∀ g, ¬ o.Fails servers types g := by
  constructor
  · rintro ⟨rfl, rfl⟩
    exact (h.error_cases.resolve_left hnone).2
  · intro hf
    exact ⟨(h.error_cases.resolve_left (hf f)).1, (h'.error_cases.resolve_left (hf f')).1⟩

end

end Outcomes

/-- Whatever question the walk comes to, what comes of it is settled beforehand. -/
def Settled (ask : Server → RecordType → Activity Answer) (servers : List Server)
    (types : List RecordType) (w : World) (o : Outcomes) : Prop :=
  ∀ log m es q, Asks ask w log m es → Waiting servers types log q →
    ∃ n fs, ask q.1 q.2 (w.after m es) = ⟨.returned (o q.1 q.2), n, fs⟩

variable {ask : Server → RecordType → Activity Answer} {servers : List Server}
variable {types : List RecordType} {w : World} {o : Outcomes} {log : List Asked} {m : Nat}
variable {es : List Event}

/-- Before each question of its log, the walk waits for the answer. -/
theorem Ended.waiting {none : Failure} {before after : List Asked} {q : Asked} {answer : Answer}
    (h : Ended servers types none (before ++ q :: after) answer) :
    Waiting servers types before q.question where
  isPrefix := by
    refine List.IsPrefix.trans ?_ h.isPrefix
    rw [List.map_append, List.map_cons]
    exact (List.prefix_append_right_inj _).mpr (List.prefix_append [q.question] _)
  not_stops p hp hstops := by
    have heq := (h.stops_iff p (hp.trans (List.prefix_append before _))).mp hstops
    have hle := hp.length_le
    rw [heq, List.length_append, List.length_cons] at hle
    omega

theorem Settled.answered {none : Failure} {answer : Answer} (h : Settled ask servers types w o)
    (hs : Asks ask w log m es) (hended : Ended servers types none log answer) {q : Asked}
    (hq : q ∈ log) : q.answer = o q.server q.type ∧
      ∃ v n fs, ask q.server q.type v = ⟨.returned (o q.server q.type), n, fs⟩ := by
  obtain ⟨before, after, rfl⟩ := List.append_of_mem hq
  obtain ⟨i, ds, _, _, hbefore, hrest, _, _⟩ := hs.of_append
  obtain ⟨_, _, _, _, hanswer, _, _, _⟩ := hrest.of_cons
  obtain ⟨n, fs, hsettled⟩ := h before i ds q.question hbefore hended.waiting
  have hsame := hanswer.symm.trans hsettled
  rw [Report.mk.injEq, Ending.returned.injEq] at hsame
  exact ⟨hsame.1, _, n, fs, hsettled⟩

theorem mem_failures {f : Failure} : f ∈ failures log ↔ ∃ q ∈ log, q.answer = .error f := by
  rw [failures, List.mem_filterMap]
  refine exists_congr fun q => and_congr_right fun _ => ?_
  rw [Asked.failure?]
  cases q.answer <;> simp

namespace Outcomes

/-- The answers of the log are the outcomes. -/
def Records (o : Outcomes) (log : List Asked) : Prop := ∀ q ∈ log, q.answer = o q.server q.type

namespace Records

variable (h : o.Records log)
include h

theorem eq_row {server : Server}
    (hq : log.map Asked.question = types.map fun type => (server, type)) :
    log = o.row types server := by
  have hlog : log.map (fun q => ⟨q.server, q.type, o q.server q.type⟩) = log := by
    refine (List.map_congr_left fun q hq => ?_).trans log.map_id
    exact congrArg (Asked.mk q.server q.type) (h q hq).symm
  have hrow := congrArg (List.map fun q : Server × RecordType => Asked.mk q.1 q.2 (o q.1 q.2)) hq
  rw [List.map_map, List.map_map] at hrow
  exact hlog.symm.trans hrow

theorem fails {f : Failure} (hq : ∀ q ∈ log, q.question ∈ servers ×ˢ types)
    (hf : f ∈ failures log) : o.Fails servers types f := by
  obtain ⟨q, hmem, hqf⟩ := mem_failures.mp hf
  obtain ⟨hserver, htype⟩ := List.mem_product.mp (hq q hmem)
  exact ⟨q.server, hserver, q.type, htype, (h q hmem).symm.trans hqf⟩

theorem mem_of_exhausted (hall : log.map Asked.question = servers ×ˢ types) {server : Server}
    (hserver : server ∈ servers) {type : RecordType} (htype : type ∈ types) :
    ⟨server, type, o server type⟩ ∈ log := by
  have hmem : (server, type) ∈ log.map Asked.question := by
    rw [hall]
    exact List.mem_product.mpr ⟨hserver, htype⟩
  obtain ⟨q, hq, hquestion⟩ := List.mem_map.mp hmem
  cases hquestion
  rw [← h q hq]
  exact hq

theorem barren_of_exhausted (hall : log.map Asked.question = servers ×ˢ types)
    (hg : gathered log = []) : o.Barren servers types := by
  intro server hserver
  rw [gathered, row, List.flatMap_map, List.flatMap_eq_nil_iff]
  intro type htype
  exact List.flatMap_eq_nil_iff.mp hg _ (h.mem_of_exhausted hall hserver htype)

theorem decides_of_exhausted {none : Failure} (hall : log.map Asked.question = servers ×ˢ types)
    (hg : gathered log = []) :
    o.Decides servers types none (.error ((failures log).head?.getD none)) := by
  have hbarren := h.barren_of_exhausted hall hg
  cases hfirst : (failures log).head? with
  | none =>
    refine .empty hbarren fun f => ?_
    rintro ⟨server, hserver, type, htype, hf⟩
    have hf : f ∈ failures log :=
      mem_failures.mpr ⟨_, h.mem_of_exhausted hall hserver htype, hf⟩
    rw [List.head?_eq_none_iff.mp hfirst] at hf
    cases hf
  | some f =>
    refine .failed hbarren (h.fails (fun q hq => ?_) (List.mem_of_head? hfirst))
    rw [← hall]
    exact List.mem_map_of_mem hq

end Records

end Outcomes

section

variable (hs : Settled ask servers types w o)
variable (hsoft : ∀ f, o.Fails servers types f → ¬ f.cause.IsFinal)
include hs hsoft

/-- A walk with settled outcomes comes to an end, and to what they decide. If that is a failure, all
pairs have been asked. -/
theorem Settled.askAll_decides (none : Failure) :
    ∃ answer n es, askAll ask types none servers .none w = ⟨.returned answer, n, es⟩ ∧
      o.Decides servers types none answer ∧
      ∀ f, answer = .error f → ∀ server ∈ servers, ∀ type ∈ types,
        ∃ v k fs, ask server type v = ⟨.returned (o server type), k, fs⟩ := by
  obtain ⟨log, m, es, hlog, ⟨answer, hended, hrun⟩ | ⟨q, d, _, _, _, hwaiting, hq, hd, _⟩⟩ :=
    askAll_cases ask servers types none w
  · have hrecords : o.Records log := fun q hq => (hs.answered hlog hended hq).1
    refine ⟨answer, m, es, hrun, ?_⟩
    cases hended.verdict with
    | fatal hends =>
      -- Its failure would be an outcome, and none of these is final.
      have hfails := hrecords.fails
        (fun q hq => hended.isPrefix.subset (List.mem_map_of_mem hq)) hends.mem_failures
      exact absurd hends.isFinal (hsoft _ hfails)
    | served hserved =>
      obtain ⟨earlier, server, later, before, rfl, rfl, _, hrow, hne⟩ := hserved
      have hrest : o.Records _ := fun q hq => hrecords q (List.mem_append_right before hq)
      rw [hrest.eq_row hrow] at hne ⊢
      exact ⟨.served (List.mem_append_right earlier List.mem_cons_self) hne,
        fun _ herror => nomatch herror⟩
    | exhausted hall _ hg =>
      refine ⟨hrecords.decides_of_exhausted hall hg, fun _ _ server hserver type htype => ?_⟩
      exact (hs.answered hlog hended (hrecords.mem_of_exhausted hall hserver htype)).2
  · -- A walk that waits for ever waits for an answer, which is settled to come.
    obtain ⟨n, fs, hsettled⟩ := hs log m es q hlog hwaiting
    rw [hsettled] at hq
    cases hq
    cases hd

end

/-- Outcomes are settled if all pairs can be asked in turn and they are what comes of it. -/
theorem Settled.of_mapM
    (h : ((servers ×ˢ types).mapM (fun q => ask q.1 q.2) w).ending =
      .returned ((servers ×ˢ types).map fun q => o q.1 q.2)) :
    Settled ask servers types w o := by
  let log : List Asked := (servers ×ˢ types).map fun q => ⟨q.1, q.2, o q.1 q.2⟩
  have hall : log.map Asked.question = servers ×ˢ types := by
    rw [List.map_map]
    exact List.map_id _
  have hasks : ∃ m es, Asks ask w log m es := by
    unfold Asks
    rw [hall, List.map_map]
    exact ⟨_, _, congrArg (Report.mk · _ _) h⟩
  obtain ⟨m, es, hasks⟩ := hasks
  intro before i ds q hbefore hwaiting
  -- What has been asked so far and the question itself are a beginning of all pairs, and asking is
  -- decided by the questions, so that the answer is the one that came when all were asked.
  obtain ⟨_, hrest⟩ := hwaiting.isPrefix
  rw [← hall, List.append_assoc, List.singleton_append] at hrest
  obtain ⟨front, back, hsplit, hfront, hback⟩ := List.map_eq_append_iff.mp hrest.symm
  obtain ⟨r, back, rfl, rfl, _⟩ := List.map_eq_cons_iff.mp hback
  have hanswer : r.answer = o r.server r.type := by
    have hmem : r ∈ log := hsplit ▸ List.mem_append_right front List.mem_cons_self
    obtain ⟨_, _, rfl⟩ := List.mem_map.mp hmem
    rfl
  rw [hsplit] at hasks
  obtain ⟨j, fs, _, _, hasked, hlast, _, _⟩ := hasks.of_append
  obtain ⟨n, gs, _, _, hquery, _, _, _⟩ := hlast.of_cons
  obtain ⟨rfl, rfl⟩ := hasked.unique_of_questions hbefore hfront
  rw [hanswer] at hquery
  exact ⟨n, gs, hquery⟩

end HostLookup.Servers
