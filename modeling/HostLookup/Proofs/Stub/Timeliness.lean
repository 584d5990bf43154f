import HostLookup.Proofs.Stub.Laws

/-!
When lookups are over. A lookup ends by the deadline of its context, by the instant at which its
context is cancelled, and after the time that all its questions may take together, whatever the
network does. Where a question's time would leave the clock's range, the lookup ends with that, and
so it does where sorting the addresses gives up.
-/
set_option autoImplicit false

namespace HostLookup

open Activity Servers

/-- Only sorting addresses by their sources can give up. -/
def GivesUpSorting (source : Address → Option Address) : Law := fun _ e _ _ =>
  e = .disorder → ∃ as, Selection.arranged? source as = none

section

variable (source : Address → Option Address)

theorem givesUpSorting_composes : Composes (GivesUpSorting source) where
  nothing _ := nofun
  behind _ h := h

theorem temporal_endsBy (cx : Context) (deadline : Option Nat) :
    Admits source (EndsBy cx deadline) :=
  .of_instant (endsBy_composes cx deadline) (fun w _ t _ => ⟨nofun, Nat.le_max_left w.now t⟩)
    fun w _ t _ => ⟨nofun, Nat.le_max_left w.now t⟩

theorem temporal_overflowsFor (timeout : Nat) : Admits source (OverflowsFor timeout) :=
  .of_instant (overflowsFor_composes timeout) (fun _ _ => nofun) fun _ _ => nofun

theorem admits_givesUpSorting : Admits source (GivesUpSorting source) where
  toComposes := givesUpSorting_composes source
  probes _ := nofun
  disorder _ hnone _ := ⟨_, hnone⟩
  asked _ _ _ := nofun

end

namespace Stub

variable {s : Stub}

/-- The types of records that a lookup for a network asks for. -/
def typesFor (network : String) : List RecordType :=
  (Family.ofNetwork? network).elim [] Family.recordTypes

theorem length_serverOrder (s : Stub) (w : World) :
    (s.serverOrder w).length = s.config.servers.length :=
  (serverOrder_perm s w).length_eq

theorem conclude_endsWithin (answer : Answer) : EndsWithin 0 (s.conclude answer) := by
  intro w
  obtain ⟨e, harranged⟩ := Selection.Arranged.exists_ending s.source answer
  obtain ⟨fs, _, hconclude⟩ := conclude_apply s harranged w
  rw [hconclude]
  cases harranged <;> exact ⟨nofun, Nat.le_refl 0⟩

theorem resolver_endsWithin (h : 0 < s.config.timeout) (cx : Context) (network host : String) :
    EndsWithin (s.config.timeout * s.config.servers.length * (typesFor network).length)
      (s.resolver cx network host) := by
  have hhandled := resolver_handled s cx network host
  generalize s.resolver cx network host = lookup at hhandled
  cases hhandled with
  | literal => exact .pure _
  | failed cause => exact .pure _
  | @asked family target hf =>
    intro w
    rw [askServers_apply, typesFor, hf, ← length_serverOrder s w]
    exact EndsWithin.bind (n := 0) (askAll_endsWithin (query_endsWithin h cx target)
      family.recordTypes _ (s.serverOrder w) none) conclude_endsWithin w

theorem query_givesUpSorting (cx : Context) (target : Target) (server : Server)
    (type : RecordType) :
    Obeys (GivesUpSorting s.source) (s.query cx target server type) :=
  fun w h => absurd h (query_avoids_disorder cx target server type w)

/-- The lookup is over by an instant, with an answer, because the time for a question would leave
the clock's range, or because there are addresses that cannot be put in order. -/
def CompletesBy (s : Stub) (start limit : Nat) (r : Report Answer) : Prop :=
  start + r.elapsed ≤ limit ∧
    ((∃ answer, r.ending = .returned answer) ∨
      r.ending = .overflow ∧ Clock.after? (start + r.elapsed) s.config.timeout = none ∨
      r.ending = .disorder ∧ ∃ as, Selection.arranged? s.source as = none)

/-- The instants by which a lookup is over that asks all servers at most so many rounds. -/
structure Timely (s : Stub) (cx : Context) (network : String) (rounds : Nat) (w : World)
    (r : Report Answer) : Prop where
  deadline : ∀ d, cx.deadline = some d → CompletesBy s w.now (max w.now d) r
  cancelled : ∀ c ∈ w.cancellations, c.id ∈ cx.token.lineage →
    CompletesBy s w.now (max w.now c.time) r
  timeout : 0 < s.config.timeout →
    CompletesBy s w.now (w.now +
      s.config.timeout * s.config.servers.length * (typesFor network).length * rounds) r

theorem completesBy_of_report {r : Report Answer} {start limit : Nat}
    (hs : r.ending.status ≠ .stalled) (hle : start + r.elapsed ≤ limit)
    (ho : r.ending.status = .overflow → Clock.after? (start + r.elapsed) s.config.timeout = none)
    (hd : r.ending.status = .disorder → ∃ as, Selection.arranged? s.source as = none) :
    CompletesBy s start limit r := by
  refine ⟨hle, ?_⟩
  cases he : r.ending with
  | returned answer => exact Or.inl ⟨answer, rfl⟩
  | stalled =>
    rw [he] at hs
    exact absurd rfl hs
  | overflow =>
    rw [he] at ho
    exact Or.inr (Or.inl ⟨rfl, ho rfl⟩)
  | disorder =>
    rw [he] at hd
    exact Or.inr (Or.inr ⟨rfl, hd rfl⟩)

theorem timely_of_laws {cx : Context} {network : String} {rounds : Nat} {lookup : Activity Answer}
    (hends : Obeys (EndsBy cx cx.deadline) lookup)
    (hoverflows : Obeys (OverflowsFor s.config.timeout) lookup)
    (hgivesUp : Obeys (GivesUpSorting s.source) lookup)
    (hwithin : 0 < s.config.timeout → EndsWithin
      (s.config.timeout * s.config.servers.length * (typesFor network).length * rounds) lookup)
    (w : World) : Timely s cx network rounds w (lookup w) := by
  have hcut : ∀ t, Clock.ComesBy (cx.cutoff w.cancellations cx.deadline) t →
      CompletesBy s w.now (max w.now t) (lookup w) := by
    intro t ht
    obtain ⟨hs, hle⟩ := hends w t ht
    exact completesBy_of_report hs hle (hoverflows w) (hgivesUp w)
  refine ⟨fun d hd => hcut d ?_, fun c hc ht => hcut c.time ?_, fun h => ?_⟩
  · rw [hd]
    exact (Clock.comesBy_some_iff.mpr (Nat.le_refl d)).earlier_right
  · exact (Token.comesBy_cancelTime hc ht).earlier_left
  · obtain ⟨hs, hle⟩ := hwithin h w
    exact completesBy_of_report hs (Nat.add_le_add_left hle w.now) (hoverflows w) (hgivesUp w)

theorem resolver_timely (s : Stub) (cx : Context) (network host : String) (w : World) :
    Timely s cx network 1 w (s.resolver cx network host w) := by
  refine timely_of_laws (resolver_obeys (temporal_endsBy _ _ _) (query_endsBy cx) network host)
    (resolver_obeys (temporal_overflowsFor _ _) (query_overflowsFor cx) network host)
    (resolver_obeys (admits_givesUpSorting _) (query_givesUpSorting cx) network host)
    (fun h => ?_) w
  rw [Nat.mul_one]
  exact resolver_endsWithin h cx network host

theorem search_endsWithin (h : 0 < s.config.timeout) (cx : Context) (network host : String) :
    EndsWithin (s.config.timeout * s.config.servers.length * (typesFor network).length *
      (s.config.search.entries.length + 1)) (s.search.resolver cx network host) := by
  have hask : ∀ name, EndsWithin
      (s.config.timeout * s.config.servers.length * (typesFor network).length)
      (s.search.ask cx network name) := by
    intro name
    have hasked : EndsWithin 0 (record (.asked network name)) :=
      fun _ => ⟨by simp [record], Nat.le_refl 0⟩
    have hsum := hasked.bind fun _ => resolver_endsWithin h cx network name
    rwa [Nat.zero_add] at hsum
  have hdone : EndsWithin 0 (Activity.isDone cx) := fun _ => ⟨fun h => (by cases h), Nat.le_refl 0⟩
  unfold Search.resolver
  split
  · exact .pure _
  · exact (Search.tryAll_endsWithin hask hdone _ _ _).mono
      (Nat.mul_le_mul_left _ (Search.length_candidates_le _ _ host))

/-- Whatever the network does, a lookup is over by its context's deadline, once its context is
cancelled, and when all questions that it may ask have had their time; so is a lookup by a search
list, which may ask them once for each candidate. -/
theorem lookups_timely (s : Stub) (cx : Context) (network host : String) (w : World) :
    Timely s cx network 1 w (s.resolver cx network host w) ∧
      Timely s cx network (s.config.search.entries.length + 1) w
        (s.search.resolver cx network host w) :=
  ⟨resolver_timely s cx network host w,
    timely_of_laws (search_obeys (temporal_endsBy _ _ _) (query_endsBy cx) network host)
      (search_obeys (temporal_overflowsFor _ _) (query_overflowsFor cx) network host)
      (search_obeys (admits_givesUpSorting _) (query_givesUpSorting cx) network host)
      (fun h => search_endsWithin h cx network host) w⟩

end Stub

end HostLookup
