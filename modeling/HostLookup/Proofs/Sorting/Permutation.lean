import HostLookup.Sorting.Stable

/-!
Inserting and merging only rearrange. This holds for every way of comparing, also where it is no
order: merging from both ends keeps every element because either the two ends meet or the front
decides alone.
-/
set_option autoImplicit false

namespace HostLookup.Sorting

variable {α : Type} (before : α → α → Bool)

theorem insertBack_perm (x : α) (ys : List α) : (insertBack before x ys).Perm (x :: ys) := by
  induction ys with
  | nil => exact .refl [x]
  | cons y ys ih =>
    rw [insertBack]
    split
    · exact (ih.cons y).trans (.swap x y ys)
    · exact .refl _

theorem insertAll_perm (sorted xs : List α) : (insertAll before sorted xs).Perm (sorted ++ xs) := by
  have h : ∀ ys : List α,
      (xs.foldl (fun ys x => insertBack before x ys) ys).Perm (xs.reverse ++ ys) := by
    induction xs with
    | nil => exact fun ys => .refl ys
    | cons x xs ih =>
      intro ys
      rw [List.foldl_cons, List.reverse_cons, List.append_assoc]
      exact (ih _).trans ((insertBack_perm before x ys).append_left _)
  unfold insertAll
  refine (List.reverse_perm _).trans ((h sorted.reverse).trans ?_)
  rw [← List.reverse_append]
  exact List.reverse_perm _

/-- Whichever of two pairs hold the first and the last element, and however the rest is put. -/
theorem ends_perm (a b c d : α) (firstRight lastLeft turned : Bool) :
    (let first := if firstRight then c else a
      let last := if lastLeft then b else d
      let left := if firstRight then a else if lastLeft then c else b
      let right := if lastLeft then d else if firstRight then b else c
      if turned then [first, right, left, last] else [first, left, right, last]).Perm
        [a, b, c, d] := by
  classical
  rw [List.perm_iff_count]
  intro x
  cases firstRight <;> cases lastLeft <;> cases turned <;> simp [List.count_cons] <;> omega

theorem countLeft_le (n : Nat) (xs ys : List α) : countLeft before n xs ys ≤ n := by
  fun_induction countLeft before n xs ys <;> omega

theorem take_merge_perm (n : Nat) (xs ys : List α) :
    ((merge before xs ys).take n).Perm
      (xs.take (countLeft before n xs ys) ++ ys.take (n - countLeft before n xs ys)) := by
  fun_induction countLeft before n xs ys with
  | case1 => simp
  | case2 n ys => simp
  | case3 n x xs => simp
  | case4 n x xs y ys h ih =>
    have hle := countLeft_le before n (x :: xs) ys
    rw [merge_cons_cons, if_pos h, List.take_succ_cons, Nat.succ_sub hle, List.take_succ_cons]
    exact (ih.cons y).trans List.perm_middle.symm
  | case5 n x xs y ys h ih =>
    rw [merge_cons_cons, if_neg h, List.take_succ_cons, List.take_succ_cons, Nat.succ_sub_succ]
    exact ih.cons x

theorem drop_mergeBack_perm {n : Nat} {xs ys : List α} (h : n ≤ xs.length + ys.length) :
    ((mergeBack before xs ys).drop (xs.length + ys.length - n)).Perm
      (ys.drop (ys.length - countLeft (fun x y => before y x) n ys.reverse xs.reverse) ++
        xs.drop (xs.length -
          (n - countLeft (fun x y => before y x) n ys.reverse xs.reverse))) := by
  have hm := take_merge_perm (fun x y => before y x) n ys.reverse xs.reverse
  unfold mergeBack
  rw [List.drop_reverse]
  refine (List.reverse_perm _).trans ?_
  simp only [length_merge, List.length_reverse]
  rw [show ys.length + xs.length - (xs.length + ys.length - n) = n by omega]
  refine hm.trans ?_
  rw [List.take_reverse, List.take_reverse]
  exact (List.reverse_perm _).append (List.reverse_perm _)

theorem take_append_drop_perm (i j : Nat) (xs ys : List α) :
    (xs.take i ++ ys.take j ++ (ys.drop j ++ xs.drop i)).Perm (xs ++ ys) := by
  have h : (ys.take j ++ (ys.drop j ++ xs.drop i)).Perm (xs.drop i ++ ys) := by
    rw [← List.append_assoc, List.take_append_drop]
    exact List.perm_append_comm
  rw [List.append_assoc]
  refine (h.append_left _).trans (.of_eq ?_)
  rw [← List.append_assoc, List.take_append_drop]

theorem take_one_append_drop (i : Nat) (xs : List α) :
    (xs.drop i).take 1 ++ xs.drop (i + 1) = xs.drop i := by
  rw [← List.drop_drop, List.take_append_drop]

/-- Where the ends meet, both halves of the result together hold every element once. -/
theorem mergeHalves_perm {xs ys : List α} (h : ys.length = xs.length ∨ ys.length = xs.length + 1) :
    (mergeHalves before xs ys).Perm (xs ++ ys) := by
  have hfront := take_merge_perm before xs.length xs ys
  have hback := drop_mergeBack_perm before (Nat.le_add_right xs.length ys.length)
  have hle := countLeft_le before xs.length xs ys
  have hle' := countLeft_le (fun x y => before y x) xs.length ys.reverse xs.reverse
  rw [Nat.add_sub_cancel_left] at hback
  unfold mergeHalves
  dsimp only
  generalize countLeft before xs.length xs ys = front at hfront hle ⊢
  generalize countLeft (fun x y => before y x) xs.length ys.reverse xs.reverse = k at hback hle' ⊢
  have hk : xs.length - (xs.length - k) = k := by omega
  rw [hk] at hback
  split
  · split
    · have hy : ys.length - k = xs.length - front := by omega
      have hx : k = front := by omega
      rw [hy, hx] at hback
      rw [List.append_nil]
      exact (hfront.append hback).trans (take_append_drop_perm front _ xs ys)
    · exact merge_perm before xs ys
  · split
    · have hy : ys.length - k = xs.length - front + 1 := by omega
      have hx : k = front := by omega
      rw [hy, hx] at hback
      refine ((hfront.append_right _).append hback).trans ?_
      rw [List.append_assoc, ← List.append_assoc _ (ys.drop _), take_one_append_drop]
      exact take_append_drop_perm front _ xs ys
    · split
      · have hy : ys.length - k = xs.length - front := by omega
        have hx : k = front + 1 := by omega
        rw [hy, hx] at hback
        refine ((hfront.append_right _).append hback).trans ?_
        refine .trans ?_ (take_append_drop_perm front (xs.length - front) xs ys)
        have hmiddle := take_one_append_drop front xs
        generalize (xs.drop front).take 1 = middle at hmiddle
        rw [← hmiddle, List.append_assoc]
        refine .append_left _ ?_
        rw [← List.append_assoc, ← List.append_assoc]
        exact List.perm_append_comm.append_right _
      · exact merge_perm before xs ys

end HostLookup.Sorting
