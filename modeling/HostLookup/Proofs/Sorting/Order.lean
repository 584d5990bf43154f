import HostLookup.Sorting.Merge
import Mathlib.Data.List.Basic
import Mathlib.Order.Lattice

/-!
What a stable sort comes to. Where `before` is an order, elements of which neither comes before the
other are alike; a stable sort puts a list in order and leaves those that are alike as they stand to
each other. There is only one result like that, so every stable sort is the library's.
-/
set_option autoImplicit false

namespace HostLookup.Sorting

variable {α : Type} {before : α → α → Bool}

/-- An order, up to elements of which neither comes before the other. -/
structure IsOrder (before : α → α → Bool) : Prop where
  asymm : ∀ {x y}, before x y = true → before y x = false
  trans_not : ∀ {x y z}, before y x = false → before z y = false → before z x = false

/-- Neither element comes before the other. -/
def alike (before : α → α → Bool) (x y : α) : Bool := !before x y && !before y x

theorem alike_eq_true {x y : α} :
    alike before x y = true ↔ before x y = false ∧ before y x = false := by
  simp [alike]

theorem alike_comm (x y : α) : alike before x y = alike before y x := Bool.and_comm _ _

theorem alike_flip (z : α) : alike (fun x y => before y x) z = alike before z := by
  funext x
  exact alike_comm z x

/-- No element comes after one that it has to come before. -/
def Ordered (before : α → α → Bool) (xs : List α) : Prop :=
  xs.Pairwise fun x y => before y x = false

/-- `ys` is `xs` in order, with elements that are alike left as they stood to each other. -/
structure IsStableSort (before : α → α → Bool) (xs ys : List α) : Prop where
  perm : ys.Perm xs
  ordered : Ordered before ys
  filter_alike : ∀ z, ys.filter (alike before z) = xs.filter (alike before z)

namespace IsOrder

variable (h : IsOrder before)
include h

theorem irrefl (x : α) : before x x = false := by
  cases hx : before x x with
  | false => rfl
  | true => rw [← hx, h.asymm hx]

theorem flip : IsOrder fun x y => before y x where
  asymm := h.asymm
  trans_not hyx hzy := h.trans_not hzy hyx

theorem alike_self (x : α) : alike before x x = true := by
  simp [alike, h.irrefl]

theorem not_before_of_alike {x y z : α} (hx : alike before z x = true)
    (hy : alike before z y = true) : before x y = false :=
  h.trans_not (alike_eq_true.mp hy).1 (alike_eq_true.mp hx).2

/-- What stands between elements that are alike is alike to them. -/
theorem alike_between {x y w z : α} (hx : alike before z x = true) (hw : alike before z w = true)
    (hyx : before y x = false) (hwy : before w y = false) : alike before z y = true :=
  alike_eq_true.mpr
    ⟨h.trans_not hwy (alike_eq_true.mp hw).1, h.trans_not (alike_eq_true.mp hx).2 hyx⟩

theorem alike_congr {x y : α} (hxy : alike before x y = true) (z : α) :
    alike before z x = alike before z y := by
  obtain ⟨hxy, hyx⟩ := alike_eq_true.mp hxy
  rw [Bool.eq_iff_iff, alike_eq_true, alike_eq_true]
  constructor
  · exact fun ⟨hzx, hxz⟩ => ⟨h.trans_not hxy hzx, h.trans_not hxz hyx⟩
  · exact fun ⟨hzy, hyz⟩ => ⟨h.trans_not hyx hzy, h.trans_not hyz hxy⟩

end IsOrder

theorem IsOrder.of_rank {α β : Type} [LinearOrder β] (rank : α → β) :
    IsOrder fun x y => decide (rank x < rank y) where
  asymm h := by
    rw [decide_eq_true_eq] at h
    exact decide_eq_false (lt_asymm h)
  trans_not h h' := by
    simp only [decide_eq_false_iff_not, not_lt] at h h' ⊢
    exact le_trans h h'

theorem alike_rank {α β : Type} [LinearOrder β] (rank : α → β) (x y : α) :
    alike (fun x y => decide (rank x < rank y)) x y = decide (rank y = rank x) := by
  rw [alike, ← decide_not, ← decide_not, ← Bool.decide_and, decide_eq_decide, not_lt, not_lt,
    le_antisymm_iff]

namespace Ordered

variable {xs ys : List α}

theorem nil : Ordered before [] := List.Pairwise.nil

theorem cons_iff {x : α} :
    Ordered before (x :: xs) ↔ (∀ y ∈ xs, before y x = false) ∧ Ordered before xs :=
  List.pairwise_cons

theorem reverse_iff : Ordered before xs.reverse ↔ Ordered (fun x y => before y x) xs :=
  List.pairwise_reverse

theorem alike_head (h : IsOrder before) {x y : α} (hx : Ordered before (x :: xs))
    (hy : Ordered before (y :: ys)) (hxy : ∃ v ∈ y :: ys, alike before x v = true)
    (hyx : ∃ u ∈ x :: xs, alike before y u = true) : alike before x y = true := by
  have hle : ∀ {u v : α} {us : List α}, Ordered before (u :: us) →
      (∃ w ∈ u :: us, alike before v w = true) → before v u = false := by
    rintro u v us hu ⟨w, hw, hvw⟩
    have hwu : before w u = false := by
      rcases List.mem_cons.mp hw with rfl | hw
      · exact h.irrefl w
      · exact (cons_iff.mp hu).1 w hw
    exact h.trans_not hwu (alike_eq_true.mp hvw).1
  exact alike_eq_true.mpr ⟨hle hy hxy, hle hx hyx⟩

/-- Lists in order that show the same among the elements of each kind show the same. -/
theorem map_eq_of_filter_alike {β : Type} (f : α → β) (h : IsOrder before)
    (hx : Ordered before xs) (hy : Ordered before ys)
    (hf : ∀ z, (xs.filter (alike before z)).map f = (ys.filter (alike before z)).map f) :
    xs.map f = ys.map f := by
  have hmem : ∀ {u : α} {us vs : List α},
      (us.filter (alike before u)).map f = (vs.filter (alike before u)).map f → u ∈ us →
        ∃ v ∈ vs, alike before u v = true := by
    intro u us vs he hu
    have hfu := List.mem_map_of_mem (f := f) (List.mem_filter.mpr ⟨hu, h.alike_self u⟩)
    rw [he] at hfu
    obtain ⟨v, hv, _⟩ := List.mem_map.mp hfu
    exact ⟨v, List.mem_filter.mp hv⟩
  induction xs generalizing ys with
  | nil =>
    cases ys with
    | nil => rfl
    | cons y ys =>
      obtain ⟨u, hu, _⟩ := hmem (hf y).symm List.mem_cons_self
      cases hu
  | cons x xs ih =>
    cases ys with
    | nil =>
      obtain ⟨v, hv, _⟩ := hmem (hf x) List.mem_cons_self
      cases hv
    | cons y ys =>
      have hxy := alike_head h hx hy (hmem (hf x) List.mem_cons_self)
        (hmem (hf y).symm List.mem_cons_self)
      have htail : ∀ z, (xs.filter (alike before z)).map f = (ys.filter (alike before z)).map f := by
        intro z
        have hz := hf z
        rw [List.filter_cons, List.filter_cons, h.alike_congr hxy] at hz
        split at hz
        · exact (List.cons.inj hz).2
        · exact hz
      have hhead := hf x
      rw [List.filter_cons_of_pos (h.alike_self x), List.filter_cons_of_pos hxy] at hhead
      rw [List.map_cons, List.map_cons, (List.cons.inj hhead).1,
        ih (cons_iff.mp hx).2 (cons_iff.mp hy).2 htail]

theorem eq_of_filter_alike (h : IsOrder before) (hx : Ordered before xs) (hy : Ordered before ys)
    (hf : ∀ z, xs.filter (alike before z) = ys.filter (alike before z)) : xs = ys := by
  simpa using map_eq_of_filter_alike id h hx hy (fun z => congrArg (List.map id) (hf z))

end Ordered

namespace IsStableSort

variable {xs ys zs : List α}

theorem of_ordered (hx : Ordered before xs) : IsStableSort before xs xs :=
  ⟨.refl xs, hx, fun _ => rfl⟩

theorem unique (h : IsOrder before) (hy : IsStableSort before xs ys)
    (hz : IsStableSort before xs zs) : ys = zs :=
  hy.ordered.eq_of_filter_alike h hz.ordered fun z =>
    (hy.filter_alike z).trans (hz.filter_alike z).symm

theorem mergeSort (h : IsOrder before) (xs : List α) :
    IsStableSort before xs (xs.mergeSort fun x y => !before y x) := by
  have htrans : ∀ x y z, (!before y x) = true → (!before z y) = true → (!before z x) = true := by
    intro x y z hyx hzy
    simp only [Bool.not_eq_true'] at hyx hzy ⊢
    exact h.trans_not hyx hzy
  have htotal : ∀ x y, ((!before y x) || !before x y) = true := by
    intro x y
    cases hxy : before x y with
    | false => simp
    | true => simp [h.asymm hxy]
  have hperm := List.mergeSort_perm xs fun x y => !before y x
  refine ⟨hperm, ?_, fun z => ?_⟩
  · have := List.pairwise_mergeSort htrans htotal xs
    simpa [Ordered] using this
  · -- Elements that are alike are in order as they stand, so the sort keeps them as a sublist.
    have hordered : (xs.filter (alike before z)).Pairwise fun x y => (!before y x) = true := by
      refine List.pairwise_of_forall_mem_list fun x hx y hy => ?_
      rw [Bool.not_eq_true']
      exact h.not_before_of_alike (List.of_mem_filter hy) (List.of_mem_filter hx)
    have hsub := (List.sublist_mergeSort htrans htotal hordered List.filter_sublist).filter
      (alike before z)
    rw [List.filter_filter] at hsub
    simp only [Bool.and_self] at hsub
    exact (hsub.eq_of_length (hperm.filter _).length_eq.symm).symm

end IsStableSort

end HostLookup.Sorting
