import HostLookup.Proofs.Sorting.Stability
import HostLookup.Proofs.Sorting.Naturality
import HostLookup.Proofs.Selection.Comparison
import HostLookup.Proofs.Selection.Probing

/-!
The order of destinations. Where no source is of the other family, candidates compare by a rank:
what the last rule leaves alone are IPv4 addresses, and IPv6 addresses of the same grade are treated
like those and have all the bits in common that count. Destinations are sorted stably by rank.
-/
set_option autoImplicit false

namespace HostLookup

open OrderDual Sorting

namespace Candidate

/-- The grade, and then the number of leading bits in common, of which IPv4 addresses count as having
all. The fewer are in common, the later a candidate comes; those without a source come last. -/
def rank (c : Candidate) : WithTop (Grade ×ₗ ℕᵒᵈ) :=
  match c.source with
  | some s => ↑(toLex (gradeFrom c.destination s, toDual (c.lead?.getD 64)))
  | none => ⊤

theorem compareLead_eq_cmp {x y : Candidate} (h : x.grade = y.grade) (hx : ¬ x.IsMixed)
    (hy : ¬ y.IsMixed) :
    compareLead x.lead? y.lead? = cmp (toDual (x.lead?.getD 64)) (toDual (y.lead?.getD 64)) := by
  rw [cmp_toDual]
  cases hm : x.lead? with
  | none =>
    cases hn : y.lead? with
    | none => exact (cmp_self_eq_eq 64).symm
    | some n =>
      rw [lead_eq_of_grade_eq h.symm hx hm hn]
      exact (cmp_self_eq_eq 64).symm
  | some m =>
    cases hn : y.lead? with
    | none =>
      rw [lead_eq_of_grade_eq h hy hn hm]
      exact (cmp_self_eq_eq 64).symm
    | some n => rfl

theorem compare_eq_cmp_rank {x y : Candidate} (hx : ¬ x.IsMixed) (hy : ¬ y.IsMixed) :
    x.compare y = cmp x.rank y.rank := by
  obtain ⟨a, _ | s⟩ := x
  · obtain ⟨b, _ | t⟩ := y
    · exact (cmp_self_eq_eq _).symm
    · exact (WithTop.coe_lt_top _).cmp_eq_gt.symm
  · obtain ⟨b, _ | t⟩ := y
    · exact (WithTop.coe_lt_top _).cmp_eq_lt.symm
    · rw [compare_eq, rank, rank, cmp_coe, cmp_toLex, grade, grade, cmp_coe]
      rcases lt_trichotomy (gradeFrom a s) (gradeFrom b t) with h | h | h
      · rw [h.cmp_eq_lt]
        rfl
      · have hgrade : grade ⟨a, some s⟩ = grade ⟨b, some t⟩ := WithTop.coe_inj.mpr h
        rw [compareLead_eq_cmp hgrade hx hy]
      · rw [h.cmp_eq_gt]
        rfl

end Candidate

namespace Selection

section

variable (source : Address → Option Address)

theorem arranged?_eq_stableSort? (as : List Address) : arranged? source as =
    stableSort? (pullback Candidate.isPreferred fun a => ⟨a, source a⟩) as := by
  by_cases h : as.length < 2
  · match as with
    | [] => rfl
    | [a] => rfl
  · rw [arranged?_of_length source h, known, stableSort?_map, Option.map_map]
    refine (congrArg (Option.map · _) (funext fun bs => ?_)).trans (congrFun Option.map_id _)
    exact map_destination source bs

/-- Destinations are reached from addresses of their own family. -/
def KeepsFamily : Prop := ∀ a s, source a = some s → s.isV4 = a.isV4

variable {source}

theorem KeepsFamily.not_isMixed (h : KeepsFamily source) (a : Address) :
    ¬ Candidate.IsMixed ⟨a, source a⟩ := by
  rintro ⟨s, hs, hne⟩
  exact hne (h a s hs)

variable (source)

/-- The rank of a destination that is reached from a known source. -/
def rank (a : Address) : WithTop (Candidate.Grade ×ₗ ℕᵒᵈ) := Candidate.rank ⟨a, source a⟩

variable {source}

theorem isPreferred_eq (h : KeepsFamily source) (a b : Address) :
    Candidate.isPreferred ⟨a, source a⟩ ⟨b, source b⟩ = decide (rank source a < rank source b) := by
  rw [Candidate.isPreferred, Candidate.compare_eq_cmp_rank (h.not_isMixed a) (h.not_isMixed b),
    Bool.eq_iff_iff, beq_iff_eq, cmp_eq_lt_iff, decide_eq_true_eq]
  rfl

/-- Sorting does not give up, since ranks are in an order. -/
theorem exists_arranged (h : KeepsFamily source) (as : List Address) :
    ∃ sorted, arranged? source as = some sorted ∧
      IsStableSort (fun a b => decide (rank source a < rank source b)) as sorted := by
  have hranked : (pullback Candidate.isPreferred fun a => ⟨a, source a⟩) =
      fun a b => decide (rank source a < rank source b) := by
    funext a b
    exact isPreferred_eq h a b
  rw [arranged?_eq_stableSort?, hranked, stableSort?_of_isOrder (.of_rank (rank source))]
  exact ⟨_, rfl, isStableSort_stableSort (.of_rank (rank source)) as⟩

section

variable {as sorted : List Address}
variable (h : IsStableSort (fun a b => decide (rank source a < rank source b)) as sorted)
include h

theorem pairwise_of_isStableSort : sorted.Pairwise fun a b => rank source a ≤ rank source b :=
  h.ordered.imp fun hab => by simpa using hab

theorem filter_of_isStableSort (k : WithTop (Candidate.Grade ×ₗ ℕᵒᵈ)) :
    sorted.filter (fun a => rank source a = k) = as.filter fun a => rank source a = k := by
  by_cases hk : ∃ z, rank source z = k
  · obtain ⟨z, rfl⟩ := hk
    have hz := h.filter_alike z
    have halike : alike (fun a b => decide (rank source a < rank source b)) z =
        fun a => decide (rank source a = rank source z) := by
      funext a
      exact alike_rank (rank source) z a
    rwa [halike] at hz
  · have hnil : ∀ bs : List Address, bs.filter (fun a => rank source a = k) = [] := by
      intro bs
      rw [List.filter_eq_nil_iff]
      intro a _ ha
      exact hk ⟨a, of_decide_eq_true ha⟩
    rw [hnil, hnil]

theorem eq_mergeSort_of_isStableSort :
    sorted = as.mergeSort fun a b => decide (rank source a ≤ rank source b) := by
  refine (h.unique (.of_rank (rank source)) (.mergeSort (.of_rank (rank source)) as)).trans ?_
  congr 1
  funext a b
  rw [← decide_not, decide_eq_decide, not_lt]

end

theorem arranged?_of_arranged? (h : KeepsFamily source) {as sorted : List Address}
    (hsorted : arranged? source as = some sorted) : arranged? source sorted = some sorted := by
  obtain ⟨_, has, hsort⟩ := exists_arranged h as
  obtain ⟨again, hagain, hresort⟩ := exists_arranged h sorted
  rw [hsorted] at has
  cases has
  rw [hagain, hresort.unique (.of_rank _) (.of_ordered hsort.ordered)]

/-- Where sources are of their destinations' families, destinations are sorted stably by rank: none
comes after one it is preferred to, those of the same rank stay in their order, and sorting the
result again changes nothing. -/
theorem arranged_by_rank (h : KeepsFamily source) (as : List Address) :
    ∃ sorted, arranged? source as = some sorted ∧
      sorted = as.mergeSort (fun a b => decide (rank source a ≤ rank source b)) ∧
      sorted.Perm as ∧
      sorted.Pairwise (fun a b => rank source a ≤ rank source b) ∧
      sorted.Pairwise (fun a b => Candidate.isPreferred ⟨b, source b⟩ ⟨a, source a⟩ = false) ∧
      (∀ k, sorted.filter (fun a => rank source a = k) =
        as.filter fun a => rank source a = k) ∧
      arranged? source sorted = some sorted := by
  obtain ⟨sorted, hsorted, hsort⟩ := exists_arranged h as
  refine ⟨sorted, hsorted, eq_mergeSort_of_isStableSort hsort, hsort.perm,
    pairwise_of_isStableSort hsort, ?_, filter_of_isStableSort hsort,
    arranged?_of_arranged? h hsorted⟩
  refine hsort.ordered.imp ?_
  intro a b hab
  rwa [isPreferred_eq h]

/-- Without a source for addresses of small scope, `fe80::1` comes last, and the IPv6 address of the
other two comes first. -/
theorem arranged_by_rank_reachable :
    let source : Address → Option Address := fun a =>
      if a.scope ≠ Scope.global then none
      else if a.isV4 then some (.v4 ⟨192, 0, 2, 1⟩)
      else some (.v6 ⟨0x2001, 0xdb8, 0, 0, 0, 0, 0, 1⟩)
    let near : Address := .v6 ⟨0xfe80, 0, 0, 0, 0, 0, 0, 1⟩
    let old : Address := .v4 ⟨198, 51, 100, 1⟩
    let new : Address := .v6 ⟨0x2001, 0xdb8, 1, 0, 0, 0, 0, 1⟩
    KeepsFamily source ∧
      [near, old, new].mergeSort (fun a b => decide (rank source a ≤ rank source b)) =
        [new, old, near] := by
  intro source near old new
  have hsource : KeepsFamily source := by
    intro a s h
    simp only [source] at h
    split at h
    · cases h
    · cases a <;> cases h <;> rfl
  obtain ⟨sorted, hsorted, hmerge, _⟩ := arranged_by_rank hsource [near, old, new]
  refine ⟨hsource, hmerge.symm.trans (Option.some.inj (hsorted.symm.trans ?_))⟩
  decide +kernel

end

end Selection

end HostLookup
