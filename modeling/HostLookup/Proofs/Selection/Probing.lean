import HostLookup.Proofs.Activity.Sequence
import HostLookup.Proofs.Activity.Views
import HostLookup.Proofs.Selection.Graded
import HostLookup.Resolver.Stub

/-!
Putting addresses in order takes no time and loses none of them; all that happens is that sources
are asked for. It may give up, which depends on the addresses and their sources alone.
-/
set_option autoImplicit false

namespace HostLookup

open Activity

namespace Selection

/-- Nothing happens but that sources are asked for. -/
def Probes (es : List Event) : Prop := ∀ e ∈ es, ∃ a, e.deed = .probed a

namespace Probes

variable {es : List Event}

theorem nil : Probes [] := by
  intro e he
  cases he

theorem deed_ne (h : Probes es) {e : Event} (he : e ∈ es) {d : Deed} (hd : ∀ a, d ≠ .probed a) :
    e.deed ≠ d := by
  obtain ⟨a, ha⟩ := h e he
  rw [ha]
  exact (hd a).symm

theorem queries_eq_nil (h : Probes es) : Trace.queries es = [] := by
  apply Trace.queries_eq_nil
  intro e he a t
  exact h.deed_ne he nofun

theorem answered_eq_nil (h : Probes es) : Trace.answered es = [] := by
  apply Trace.answered_eq_nil
  intro e he a m
  exact h.deed_ne he nofun

theorem accepted_eq_nil (h : Probes es) : Trace.accepted es = [] := by
  apply Trace.accepted_eq_nil
  intro e he a m
  exact h.deed_ne he nofun

theorem dialedBy_eq_nil (h : Probes es) : World.dialedBy es = [] := by
  apply World.dialedBy_eq_nil
  intro e he t a
  exact h.deed_ne he nofun

end Probes

/-- The order of destinations that are reached from known sources, unless sorting them gives up. -/
def arranged? (source : Address → Option Address) (as : List Address) : Option (List Address) :=
  Id.run (preferred? (fun a => pure (source a)) as)

section

variable (source : Address → Option Address)

/-- The candidates for destinations that are reached from known sources. -/
def known (as : List Address) : List Candidate := as.map fun a => ⟨a, source a⟩

theorem candidates_pure (as : List Address) :
    Id.run (candidates (fun a => pure (source a)) as) = known source as := by
  induction as with
  | nil => rfl
  | cons a as ih => exact congrArg (⟨a, source a⟩ :: ·) ih

theorem arranged?_of_length {as : List Address} (h : ¬ as.length < 2) :
    arranged? source as =
      (Sorting.stableSort? Candidate.isPreferred (known source as)).map
        (List.map Candidate.destination) := by
  rw [arranged?, preferred?, if_neg h]
  exact congrArg (fun cs => (Sorting.stableSort? _ cs).map _) (candidates_pure source as)

theorem map_destination (as : List Address) :
    (known source as).map Candidate.destination = as := by
  rw [known, List.map_map]
  exact List.map_id as

variable {source} {as bs : List Address}

theorem arranged?_perm (h : arranged? source as = some bs) : bs.Perm as := by
  by_cases hlen : as.length < 2
  · rw [arranged?, preferred?, if_pos hlen] at h
    cases h
    exact .refl as
  · rw [arranged?_of_length source hlen] at h
    obtain ⟨cs, hsort, rfl⟩ := Option.map_eq_some_iff.mp h
    rw [Sorting.stableSort?_eq_some hsort]
    have hperm := (Sorting.stableSort_perm Candidate.isPreferred (known source as)).map
      Candidate.destination
    rwa [map_destination] at hperm

/-- Destinations cannot be arranged only if there are more than twenty, of which three contradict
each other. -/
theorem contradictory_of_arranged?_eq_none (h : arranged? source as = none) :
    20 < as.length ∧ Candidate.Contradictory (known source as) := by
  by_cases hlen : as.length < 2
  · rw [arranged?, preferred?, if_pos hlen] at h
    cases h
  · rw [arranged?_of_length source hlen, Option.map_eq_none_iff] at h
    obtain ⟨hlength, hcontradictory⟩ := Candidate.contradictory_of_stableSort?_eq_none h
    rw [known, List.length_map] at hlength
    exact ⟨hlength, hcontradictory⟩

end

/-- What comes of an answer when it is put in order by the sources of its addresses. -/
inductive Arranged (source : Address → Option Address) : Answer → Ending Answer → Prop where
  | failure (f : Failure) : Arranged source (.error f) (.returned (.error f))
  | sorted {as bs : List Address} : arranged? source as = some bs → bs.Perm as →
      Arranged source (.ok as) (.returned (.ok bs))
  | disorder {as : List Address} : arranged? source as = none → 20 < as.length →
      Candidate.Contradictory (known source as) → Arranged source (.ok as) .disorder

namespace Arranged

theorem exists_ending (source : Address → Option Address) (answer : Answer) :
    ∃ e, Arranged source answer e := by
  cases answer with
  | error f => exact ⟨_, .failure f⟩
  | ok as =>
    cases h : arranged? source as with
    | some bs => exact ⟨_, .sorted h (arranged?_perm h)⟩
    | none =>
      obtain ⟨hlength, hcontradictory⟩ := contradictory_of_arranged?_eq_none h
      exact ⟨_, .disorder h hlength hcontradictory⟩

variable {source : Address → Option Address} {answer : Answer} {e e' : Ending Answer}

theorem unique (h : Arranged source answer e) (h' : Arranged source answer e') : e = e' := by
  cases h with
  | failure f =>
    cases h'
    rfl
  | sorted hsome =>
    cases h' with
    | sorted hsome' =>
      rw [hsome] at hsome'
      cases hsome'
      rfl
    | disorder hnone =>
      rw [hsome] at hnone
      cases hnone
  | disorder hnone =>
    cases h' with
    | sorted hsome =>
      rw [hnone] at hsome
      cases hsome
    | disorder => rfl

theorem error_iff (h : Arranged source answer e) (f : Failure) :
    e = .returned (.error f) ↔ answer = .error f := by
  cases h with
  | failure g => simp
  | sorted => simp
  | disorder => simp

/-- There are addresses just if they were in the answer and could be put in order. -/
theorem exists_ok_iff (h : Arranged source answer e) :
    (∃ bs, e = .returned (.ok bs)) ↔ (∃ as, answer = .ok as) ∧ e ≠ .disorder := by
  cases h with
  | failure f => simp
  | sorted => simp
  | disorder => simp

theorem exists_ok_of_disorder (h : Arranged source answer .disorder) : ∃ as, answer = .ok as := by
  cases h
  exact ⟨_, rfl⟩

end Arranged

/-- Addresses in two networks. -/
def contraryAddresses : List V6 :=
  let host (network n : UInt16) : V6 := ⟨network, 0, 0, 0, 0, 0, 0, n⟩
  [1, 2, 3, 4, 5, 6, 7, 8, 9].map (host 0x2a00) ++
    [host 0x2003 10, host 0x2a00 11, host 0x2003 12] ++
    [13, 14, 15, 16, 17, 18, 19, 20, 21].map (host 0x2a00)

/-- Three of the addresses are reached from an IPv6 address, and all others from an IPv4 address. -/
def contrarySource : Address → Option Address
  | .v6 a => if a.g7 ∈ [9, 10, 12] then some (.v6 ⟨0x2002, 0, 0, 0, 0, 0, 0, 1⟩)
    else some (.v4 ⟨192, 0, 2, 1⟩)
  | .v4 _ => none

theorem arranged?_contrary : arranged? contrarySource (contraryAddresses.map .v6) = none := by
  decide +kernel

theorem arranged_contrary :
    Arranged contrarySource (.ok (contraryAddresses.map .v6)) .disorder := by
  obtain ⟨hlength, hcontradictory⟩ := contradictory_of_arranged?_eq_none arranged?_contrary
  exact .disorder arranged?_contrary hlength hcontradictory

end Selection

namespace Stub

open Selection

variable (s : Stub)

theorem candidates_probe (as : List Address) (w : World) :
    candidates s.probe as w =
      ⟨.returned (known s.source as), 0, as.map fun a => ⟨w.now, .probed a⟩⟩ := by
  induction as generalizing w with
  | nil => rfl
  | cons a as ih =>
    have hprobe : s.probe a w = ⟨.returned (s.source a), 0, [⟨w.now, .probed a⟩]⟩ := rfl
    rw [candidates]
    refine (bind_of_returned hprobe).trans ?_
    rw [bind_of_returned (ih _)]
    simp [Report.behind, known]

/-- Sources are asked for, which takes no time, and the destinations are arranged by them. -/
theorem preferred?_probe (as : List Address) (w : World) :
    ∃ fs, Probes fs ∧ preferred? s.probe as w = ⟨.returned (arranged? s.source as), 0, fs⟩ := by
  by_cases h : as.length < 2
  · refine ⟨[], .nil, ?_⟩
    rw [arranged?, preferred?, preferred?, if_pos h, if_pos h]
    rfl
  · have hprobes : Probes (as.map fun a => ⟨w.now, .probed a⟩) := by
      intro e he
      obtain ⟨a, _, rfl⟩ := List.mem_map.mp he
      exact ⟨a, rfl⟩
    refine ⟨_, hprobes, ?_⟩
    rw [arranged?_of_length s.source h, preferred?, if_neg h]
    refine (bind_of_returned (candidates_probe s as w)).trans ?_
    simp [Report.behind]

/-- What becomes of what the servers answered. -/
def conclude (s : Stub) : Answer → Activity Answer
  | .error f => Pure.pure (.error f)
  | .ok addrs => do
    let sorted? ← preferred? s.probe addrs
    return .ok (← ofOrder sorted?)

theorem conclude_apply {answer : Answer} {e : Ending Answer} (h : Arranged s.source answer e)
    (w : World) : ∃ fs, Probes fs ∧ s.conclude answer w = ⟨e, 0, fs⟩ := by
  cases h with
  | failure f => exact ⟨[], .nil, rfl⟩
  | @sorted as bs hsome _ =>
    obtain ⟨fs, hfs, hrun⟩ := s.preferred?_probe as w
    rw [hsome] at hrun
    exact ⟨fs, hfs, (bind_of_returned hrun).trans (Report.behind_zero_instant fs _)⟩
  | @disorder as hnone _ _ =>
    obtain ⟨fs, hfs, hrun⟩ := s.preferred?_probe as w
    rw [hnone] at hrun
    exact ⟨fs, hfs, (bind_of_returned hrun).trans (Report.behind_zero_instant fs _)⟩

end Stub

end HostLookup
