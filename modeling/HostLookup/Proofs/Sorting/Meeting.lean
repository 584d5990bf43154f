import HostLookup.Proofs.Sorting.Refinement
import HostLookup.Proofs.Sorting.Naturality

/-!
Where the ends meet. An order follows itself and says nothing between elements that are alike, so
that these all stay as they stood. Hence merging gives the same from the front and from the back,
and what comes first and what comes last together are all elements but at most one.
-/
set_option autoImplicit false

namespace HostLookup.Sorting

variable {α : Type} {before : α → α → Bool} {xs ys : List α}

namespace IsOrder

variable (h : IsOrder before)
include h

theorem refines : Refines before before := ⟨h, id, h.asymm⟩

theorem isStableSort (hs : SortsBy before before xs ys) : IsStableSort before xs ys :=
  ⟨hs.perm, hs.ordered, fun z => hs.filter_quiet z fun _ _ => h.not_before_of_alike⟩

end IsOrder

theorem mergeBack_eq_merge (h : IsOrder before) (hx : Ordered before xs) (hy : Ordered before ys) :
    mergeBack before xs ys = merge before xs ys := by
  have hback := sortsBy_mergeBack h.refines (.of_ordered hx) (.of_ordered hy)
  have hfront := sortsBy_merge h.refines (.of_ordered hx) (.of_ordered hy)
  exact (h.isStableSort hback).unique h (h.isStableSort hfront)

theorem IsOrder.pullback {β : Type} (h : IsOrder before) (f : β → α) :
    IsOrder (pullback before f) where
  asymm := h.asymm
  trans_not := h.trans_not

theorem Ordered.pullback {β : Type} {f : β → α} {us : List β} (h : Ordered before (us.map f)) :
    Ordered (pullback before f) us :=
  List.pairwise_map.mp h

/-- If the elements of the left list can be told from those of the right one, they can be counted
among what comes first and what comes last. -/
theorem endsMeet_of_told (h : IsOrder before) (hx : Ordered before xs) (hy : Ordered before ys)
    (hlen : ys.length = xs.length ∨ ys.length = xs.length + 1) (isLeft : α → Bool)
    (hleft : ∀ x ∈ xs, isLeft x = true) (hright : ∀ y ∈ ys, isLeft y = false) :
    endsMeet before xs ys = true := by
  have hxs : ∀ {us : List α}, us.Sublist xs → us.countP isLeft = us.length := fun hu =>
    List.countP_eq_length.mpr fun u hmem => hleft u (hu.subset hmem)
  have hys : ∀ {us : List α}, us.Sublist ys → us.countP isLeft = 0 := fun hu =>
    List.countP_eq_zero.mpr fun u hmem => by simp [hright u (hu.subset hmem)]
  have hfront := (take_merge_perm before xs.length xs ys).countP_eq isLeft
  have hback := (drop_mergeBack_perm before (Nat.le_add_right xs.length ys.length)).countP_eq isLeft
  have hall := (merge_perm before xs ys).countP_eq isLeft
  rw [Nat.add_sub_cancel_left, mergeBack_eq_merge h hx hy] at hback
  simp only [List.countP_append, hxs (List.take_sublist _ _), hxs (List.drop_sublist _ _),
    hys (List.take_sublist _ _), hys (List.drop_sublist _ _), hxs (.refl xs), hys (.refl ys),
    List.length_take, List.length_drop, Nat.add_zero, Nat.zero_add] at hfront hback hall
  have hle := countLeft_le before xs.length xs ys
  unfold endsMeet
  dsimp only
  generalize merge before xs ys = merged at hfront hback hall
  generalize countLeft before xs.length xs ys = front at hfront hle ⊢
  generalize countLeft (fun x y => before y x) xs.length ys.reverse xs.reverse = k at hback ⊢
  rw [← List.take_append_drop xs.length merged, List.countP_append] at hall
  rcases hlen with hlen | hlen
  · rw [hlen] at hback
    have hmeet : front + (xs.length - k) = xs.length := by omega
    simp [hmeet]
  · -- One element is left over between the ends.
    have hmiddle : (merged.drop xs.length).countP isLeft =
        ((merged.drop xs.length).take 1).countP isLeft + (xs.length - k) := by
      have hsplit := take_one_append_drop xs.length merged
      rw [← hlen] at hsplit
      rw [← hsplit, List.countP_append, hback, hsplit]
      omega
    have hone : ((merged.drop xs.length).take 1).countP isLeft ≤ 1 :=
      Nat.le_trans List.countP_le_length (List.length_take_le 1 _)
    have hne : xs.length ≠ ys.length := by omega
    have hmeet : front + (xs.length - k) = xs.length ∨
        front + (xs.length - k) + 1 = xs.length := by omega
    simpa [hne] using hmeet

theorem endsMeet_of_isOrder (h : IsOrder before) (hx : Ordered before xs) (hy : Ordered before ys)
    (hlen : ys.length = xs.length ∨ ys.length = xs.length + 1) :
    endsMeet before xs ys = true := by
  -- Elements of the two lists may be equal, so they are marked.
  have hmarked : ∀ (us : List α) (isLeft : Bool),
      (us.map fun u => (u, isLeft)).map Prod.fst = us := by
    intro us isLeft
    rw [List.map_map]
    exact List.map_id us
  have hx' := hx
  have hy' := hy
  rw [← hmarked xs true] at hx'
  rw [← hmarked ys false] at hy'
  rw [← hmarked xs true, ← hmarked ys false, endsMeet_map]
  exact endsMeet_of_told (h.pullback _) hx'.pullback hy'.pullback (by simpa using hlen) Prod.snd
    (by simp) (by simp)

theorem blockMeets_of_isOrder (h : IsOrder before) (xs : List α) :
    blockMeets before xs = true := by
  have hl := sortsBy_sortHalf h.refines (decide (8 ≤ xs.length)) (xs.take (xs.length / 2))
  have hr := sortsBy_sortHalf h.refines (decide (8 ≤ xs.length)) (xs.drop (xs.length / 2))
  refine endsMeet_of_isOrder h hl.ordered hr.ordered ?_
  rw [hl.perm.length_eq, hr.perm.length_eq, List.length_take, List.length_drop]
  omega

end HostLookup.Sorting
