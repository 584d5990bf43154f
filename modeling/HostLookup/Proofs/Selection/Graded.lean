import HostLookup.Proofs.Selection.Comparison
import HostLookup.Proofs.Sorting.Stability

/-!
The order of destinations whatever sources are found. Candidates need not compare as in an order,
but they are preferred as their grades are, and where sorting gives a result, it is in order by
grade. Those without a source are as good as each other and stay in their order at the end. Sorting
gives up only where three candidates contradict each other, and not among up to twenty.
-/
set_option autoImplicit false

namespace HostLookup

open Sorting

namespace Candidate

theorem isPreferred_refines :
    Refines isPreferred fun x y => decide (x.grade < y.grade) where
  order := .of_rank grade
  before_of_coarse h := by
    rw [decide_eq_true_eq] at h
    rw [isPreferred, beq_iff_eq, compare_eq_lt_iff]
    exact .inl h
  not_coarse_of_before h := by
    rw [isPreferred, beq_iff_eq, compare_eq_lt_iff] at h
    rw [decide_eq_false_iff_not, not_lt]
    rcases h with h | ⟨h, _⟩
    · exact h.le
    · exact h.le

theorem grade_eq_top_iff {c : Candidate} : c.grade = ⊤ ↔ c.source.isNone = true := by
  obtain ⟨a, _ | s⟩ := c
  · simp [grade]
  · simp [grade]

theorem quiet_of_grade_eq_top {z : Candidate} (hz : z.grade = ⊤) :
    Quiet isPreferred (fun x y => decide (x.grade < y.grade)) z := by
  intro x y hx hy
  rw [alike_rank, decide_eq_true_eq, hz, grade_eq_top_iff, Option.isNone_iff_eq_none] at hx hy
  rw [isPreferred, compare, hx, hy]
  rfl

theorem eq_filter_append_filter {α : Type} {p : α → Bool} {xs : List α}
    (h : xs.Pairwise fun x y => p x = true → p y = true) :
    xs = xs.filter (fun x => !p x) ++ xs.filter p := by
  induction h with
  | nil => rfl
  | @cons x xs hx _ ih =>
    cases hp : p x with
    | false => simpa [hp] using ih
    | true =>
      have hall := fun y hy => hx y hy hp
      have hnone : xs.filter (fun y => !p y) = [] := by simpa using hall
      simp [hp, hnone, List.filter_eq_self.mpr hall]

/-- Three of the candidates contradict each other: the first is as good as the second and the second
as the third, but the first is not as good as the third. -/
def Contradictory (cs : List Candidate) : Prop :=
  ∃ x ∈ cs, ∃ y ∈ cs, ∃ z ∈ cs, x.compare y = .eq ∧ y.compare z = .eq ∧ Straddles x y z

theorem isPreferred_eq_true_iff {x y : Candidate} : x.isPreferred y = true ↔ x.compare y = .lt :=
  beq_iff_eq

theorem compare_eq_of_not_isPreferred {x y : Candidate} (hyx : y.isPreferred x = false)
    (hxy : x.compare y ≠ .lt) : x.compare y = .eq := by
  rw [isPreferred, compare_swap x y] at hyx
  cases hc : x.compare y with
  | lt => exact absurd hc hxy
  | eq => rfl
  | gt =>
    rw [hc] at hyx
    cases hyx

theorem isOrder_of_not_contradictory {cs : List Candidate} (h : ¬ Contradictory cs) :
    IsOrder (pullback isPreferred (Subtype.val : {c // c ∈ cs} → Candidate)) where
  asymm {x y} hxy := by
    rw [pullback, isPreferred_eq_true_iff] at hxy
    rw [pullback, isPreferred, compare_swap x.1 y.1, hxy]
    rfl
  trans_not {x y z} hyx hzy := by
    refine Bool.eq_false_iff.mpr fun hzx => ?_
    have hzx := isPreferred_eq_true_iff.mp hzx
    have hnyx := fun hlt => Bool.eq_false_iff.mp hyx (isPreferred_eq_true_iff.mpr hlt)
    have hnzy := fun hlt => Bool.eq_false_iff.mp hzy (isPreferred_eq_true_iff.mpr hlt)
    -- Otherwise `y`, as it comes after neither of the two, is as good as both.
    have hxy := compare_eq_of_not_isPreferred hyx fun hxy => hnzy (compare_lt_trans hzx hxy)
    have hyz := compare_eq_of_not_isPreferred hzy fun hyz => hnyx (compare_lt_trans hyz hzx)
    have hstraddles : ¬ Straddles x.1 y.1 z.1 := fun hs =>
      h ⟨x, x.2, y, y.2, z, z.2, hxy, hyz, hs⟩
    rw [compare_swap x.1 z.1, (compare_eq_trans_iff hxy hyz).mpr hstraddles] at hzx
    cases hzx

/-- Sorting gives up only on more candidates than are sorted by insertion, of which three contradict
each other. -/
theorem contradictory_of_stableSort?_eq_none {cs : List Candidate}
    (h : stableSort? isPreferred cs = none) : insertionLimit < cs.length ∧ Contradictory cs := by
  obtain ⟨hlength, hnot⟩ := not_isOrder_of_stableSort?_eq_none h
  refine ⟨hlength, ?_⟩
  by_contra hnone
  exact hnot (isOrder_of_not_contradictory hnone)

/-- Candidates in order: none is lost, those that can be reached come first and the others as they
stood, and none comes after one of a worse grade. -/
structure Graded (cs ds : List Candidate) : Prop where
  perm : ds.Perm cs
  unreachable_last : ∃ front, ds = front ++ cs.filter (fun c => c.source.isNone) ∧
    ∀ c ∈ front, c.source.isSome = true
  grade_le : ds.Pairwise fun x y => x.grade ≤ y.grade

theorem graded_stableSort (cs : List Candidate) : Graded cs (stableSort isPreferred cs) := by
  have hs := sortsBy_stableSort isPreferred_refines cs
  have hgrade : (stableSort isPreferred cs).Pairwise fun x y => x.grade ≤ y.grade :=
    hs.ordered.imp fun hxy => by simpa using hxy
  have hlast : (stableSort isPreferred cs).Pairwise fun x y =>
      x.source.isNone = true → y.source.isNone = true := by
    refine hgrade.imp fun {x y} hxy hx => ?_
    rw [← grade_eq_top_iff] at hx ⊢
    exact top_le_iff.mp (hx ▸ hxy)
  have hkept : (stableSort isPreferred cs).filter (fun c => c.source.isNone) =
      cs.filter fun c => c.source.isNone := by
    have hunreachable : alike (fun x y : Candidate => decide (x.grade < y.grade))
        ⟨.v4 .localhost, none⟩ = fun c => c.source.isNone := by
      funext c
      rw [alike_rank, Bool.eq_iff_iff, decide_eq_true_eq, ← grade_eq_top_iff]
      rfl
    rw [← hunreachable]
    exact hs.filter_quiet _ (quiet_of_grade_eq_top rfl)
  refine ⟨hs.perm, ⟨_, (eq_filter_append_filter hlast).trans (congrArg _ hkept), ?_⟩, hgrade⟩
  intro c hc
  simpa [Option.isSome_iff_ne_none] using List.of_mem_filter hc

end Candidate

namespace Selection

variable {m : Type → Type} [Monad m] [LawfulMonad m]

theorem candidates_eq (probe : Address → m (Option Address)) (as : List Address) :
    candidates probe as = as.zipWith Candidate.mk <$> as.mapM probe := by
  induction as with
  | nil => simp [candidates]
  | cons a as ih => simp [candidates, ih]

/-- Each destination is asked for its source once, in order, unless there are fewer than two. The
result, if there is one, is in order by grade; there is none only for more than twenty destinations,
of which three contradict each other. -/
theorem preferred?_graded (probe : Address → m (Option Address)) (as : List Address) :
    preferred? probe as =
      (if as.length < 2 then pure (some as)
      else do
        let sources ← as.mapM probe
        return (stableSort? Candidate.isPreferred (as.zipWith Candidate.mk sources)).map
          (List.map Candidate.destination)) ∧
    ∀ sources : List (Option Address), sources.length = as.length →
      let cs := as.zipWith Candidate.mk sources
      (∀ ds, stableSort? Candidate.isPreferred cs = some ds →
        (ds.map Candidate.destination).Perm as ∧ Candidate.Graded cs ds) ∧
      (stableSort? Candidate.isPreferred cs = none →
        20 < as.length ∧ Candidate.Contradictory cs) := by
  constructor
  · rw [preferred?]
    split
    · rfl
    · simp [candidates_eq]
  · intro sources hlen cs
    have hdestination : cs.map Candidate.destination = as := by
      rw [List.map_zipWith, ← List.map_uncurry_zip_eq_zipWith]
      exact List.map_fst_zip hlen.ge
    constructor
    · intro ds hsort
      have hgraded := Candidate.graded_stableSort cs
      rw [← stableSort?_eq_some hsort] at hgraded
      exact ⟨hdestination ▸ hgraded.perm.map Candidate.destination, hgraded⟩
    · intro hsort
      obtain ⟨hlength, hcontradictory⟩ := Candidate.contradictory_of_stableSort?_eq_none hsort
      exact ⟨by simpa [cs, hlen, insertionLimit] using hlength, hcontradictory⟩

/-- The destinations `2a00::9`, `2003::a` and `2003::c` are reached from `2002::1`, the others from
`192.0.2.1` and as good as each of them. When both halves are merged, `2a00::9` is among the first
ten from the front and among the last ten from the back. -/
theorem preferred?_graded_contradictory :
    let at6 (network host : UInt16) : Address := .v6 ⟨network, 0, 0, 0, 0, 0, 0, host⟩
    let mixed := [13, 14, 15, 16, 17, 18, 19, 20, 21].map (at6 0x2a00)
    let as := [1, 2, 3, 4, 5, 6, 7, 8, 9].map (at6 0x2a00) ++
      [at6 0x2003 10, at6 0x2a00 11, at6 0x2003 12] ++ mixed
    let source (a : Address) : Option Address :=
      if a ∈ [at6 0x2a00 9, at6 0x2003 10, at6 0x2003 12] then some (at6 0x2002 1)
      else some (.v4 ⟨192, 0, 2, 1⟩)
    (as.map source).length = as.length ∧
      Id.run (preferred? (fun a => pure (source a)) as) = none ∧
      Candidate.Contradictory (as.zipWith Candidate.mk (as.map source)) := by
  intro at6 mixed as source
  have hlen : (as.map source).length = as.length := List.length_map source
  let cs := as.zipWith Candidate.mk (as.map source)
  have hnone : stableSort? Candidate.isPreferred cs = none := by decide +kernel
  obtain ⟨hasks, hgraded⟩ := preferred?_graded (m := Id) (fun a => pure (source a)) as
  refine ⟨hlen, ?_, ((hgraded (as.map source) hlen).2 hnone).2⟩
  rw [hasks]
  exact congrArg (Option.map (List.map Candidate.destination)) hnone

end Selection

end HostLookup
