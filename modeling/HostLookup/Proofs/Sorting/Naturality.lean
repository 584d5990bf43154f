import HostLookup.Sorting.Stable

/-!
Sorting sees elements only through comparisons. Sorting the images of some elements is the same as
sorting the elements as their images compare, and taking the images then.
-/
set_option autoImplicit false

namespace HostLookup.Sorting

variable {α β : Type} (before : β → β → Bool) (f : α → β)

/-- Compares elements as their images compare. -/
def pullback (x y : α) : Bool := before (f x) (f y)

theorem map_insertBack (x : α) (ys : List α) :
    (insertBack (pullback before f) x ys).map f = insertBack before (f x) (ys.map f) := by
  induction ys with
  | nil => rfl
  | cons y ys ih =>
    rw [List.map_cons, insertBack, insertBack, pullback]
    split
    · rw [List.map_cons, ih]
    · rfl

theorem map_foldl_insertBack (xs ys : List α) :
    (xs.foldl (fun ys x => insertBack (pullback before f) x ys) ys).map f =
      (xs.map f).foldl (fun ys x => insertBack before x ys) (ys.map f) := by
  induction xs generalizing ys with
  | nil => rfl
  | cons x xs ih => rw [List.foldl_cons, ih, map_insertBack, List.map_cons, List.foldl_cons]

theorem map_insertAll (sorted xs : List α) :
    (insertAll (pullback before f) sorted xs).map f =
      insertAll before (sorted.map f) (xs.map f) := by
  rw [insertAll, insertAll, List.map_reverse, map_foldl_insertBack, List.map_reverse]

theorem map_insertionSort (xs : List α) :
    (insertionSort (pullback before f) xs).map f = insertionSort before (xs.map f) :=
  map_insertAll before f [] xs

theorem map_sortFour (v₀ v₁ v₂ v₃ : α) :
    (sortFour (pullback before f) v₀ v₁ v₂ v₃).map f =
      sortFour before (f v₀) (f v₁) (f v₂) (f v₃) := by
  have himages : ∀ (b : Bool) (u v : α),
      (if b then (f v, f u) else (f u, f v)) =
        (f (if b then (v, u) else (u, v)).1, f (if b then (v, u) else (u, v)).2) := by
    intro b u v
    cases b <;> rfl
  unfold sortFour pullback
  rw [himages, himages]
  generalize (if before (f v₁) (f v₀) = true then (v₁, v₀) else (v₀, v₁)) = p
  generalize (if before (f v₃) (f v₂) = true then (v₃, v₂) else (v₂, v₃)) = q
  dsimp only
  cases before (f q.1) (f p.1) <;> cases before (f q.2) (f p.2) <;>
    exact apply_ite (List.map f) _ _ _

theorem map_sortHalf (large : Bool) (xs : List α) :
    (sortHalf (pullback before f) large xs).map f = sortHalf before large (xs.map f) := by
  match xs with
  | v₀ :: v₁ :: v₂ :: v₃ :: rest =>
    simp only [List.map_cons, sortHalf]
    split
    · rw [map_insertAll, map_sortFour]
    · exact map_insertionSort before f _
  | [] | [_] | [_, _] | [_, _, _] => exact map_insertionSort before f _

theorem map_merge (xs ys : List α) :
    (merge (pullback before f) xs ys).map f = merge before (xs.map f) (ys.map f) := by
  induction xs generalizing ys with
  | nil => rfl
  | cons x xs ihx =>
    induction ys with
    | nil => rfl
    | cons y ys ihy =>
      rw [merge_cons_cons, List.map_cons, List.map_cons, merge_cons_cons, pullback]
      split
      · rw [List.map_cons, ihy, List.map_cons]
      · rw [List.map_cons, ihx, List.map_cons]

theorem map_mergeBack (xs ys : List α) :
    (mergeBack (pullback before f) xs ys).map f = mergeBack before (xs.map f) (ys.map f) := by
  have hm := map_merge (fun x y => before y x) f ys.reverse xs.reverse
  rw [List.map_reverse, List.map_reverse] at hm
  rw [mergeBack, mergeBack, List.map_reverse, ← hm]
  rfl

theorem map_mergeRuns (xs ys : List α) :
    (mergeRuns (pullback before f) xs ys).map f = mergeRuns before (xs.map f) (ys.map f) := by
  rw [mergeRuns, mergeRuns, List.length_map, List.length_map]
  split
  · exact map_merge before f xs ys
  · exact map_mergeBack before f xs ys

theorem countLeft_map (n : Nat) (xs ys : List α) :
    countLeft before n (xs.map f) (ys.map f) = countLeft (pullback before f) n xs ys := by
  fun_induction countLeft (pullback before f) n xs ys with
  | case1 => simp [countLeft]
  | case2 => simp [countLeft]
  | case3 => simp [countLeft]
  | case4 n x xs y ys h ih =>
    rw [pullback] at h
    rw [← ih]
    simp [countLeft, h]
  | case5 n x xs y ys h ih =>
    rw [pullback] at h
    rw [← ih]
    simp [countLeft, h]

theorem endsMeet_map (xs ys : List α) :
    endsMeet before (xs.map f) (ys.map f) = endsMeet (pullback before f) xs ys := by
  have hback := countLeft_map (fun x y => before y x) f xs.length ys.reverse xs.reverse
  rw [List.map_reverse, List.map_reverse] at hback
  unfold endsMeet
  simp only [List.length_map, countLeft_map, hback]
  rfl

theorem map_mergeHalves (xs ys : List α) :
    (mergeHalves (pullback before f) xs ys).map f = mergeHalves before (xs.map f) (ys.map f) := by
  have hback := countLeft_map (fun x y => before y x) f xs.length ys.reverse xs.reverse
  rw [List.map_reverse, List.map_reverse] at hback
  unfold mergeHalves
  simp only [List.length_map, countLeft_map, hback, ← map_merge, ← map_mergeBack,
    apply_ite (List.map f), List.map_append, List.map_take, List.map_drop]
  rfl

theorem map_sortBlock (xs : List α) :
    (sortBlock (pullback before f) xs).map f = sortBlock before (xs.map f) := by
  unfold sortBlock
  rw [map_mergeHalves, map_sortHalf, map_sortHalf, List.map_take, List.map_drop, List.length_map]

theorem blockMeets_map (xs : List α) :
    blockMeets before (xs.map f) = blockMeets (pullback before f) xs := by
  unfold blockMeets
  rw [← endsMeet_map, map_sortHalf, map_sortHalf, List.map_take, List.map_drop, List.length_map]

theorem spanRun_map {follows : β → β → Bool} (last : α) (xs : List α) :
    spanRun follows (f last) (xs.map f) =
      ((spanRun (pullback follows f) last xs).1.map f,
        (spanRun (pullback follows f) last xs).2.map f) := by
  induction xs generalizing last with
  | nil => rfl
  | cons y ys ih =>
    rw [List.map_cons, spanRun, spanRun, ih, pullback]
    split <;> rfl

theorem naturalRun_map (xs : List α) :
    naturalRun before (xs.map f) =
      ((naturalRun (pullback before f) xs).1.map f,
        (naturalRun (pullback before f) xs).2.map f) := by
  match xs with
  | [] | [_] => rfl
  | x :: y :: xs =>
    rw [List.map_cons, List.map_cons, naturalRun, naturalRun, spanRun_map, spanRun_map, pullback]
    split
    · rw [List.map_reverse]
      rfl
    · rfl

/-- The run of the images. -/
def Run.map (run : Run α) : Run β := ⟨run.items.map f, run.isSorted, run.meets⟩

theorem Run.length_items_map (run : Run α) : (run.map f).items.length = run.items.length :=
  List.length_map f

theorem Run.append_map (left right : Run α) :
    (left.map f).append (right.map f) = (left.append right).map f := by
  rw [Run.append, Run.append, Run.map, Run.map, Run.map, List.map_append]

theorem Run.ofBlock_map (xs : List α) :
    Run.ofBlock before (xs.map f) = (Run.ofBlock (pullback before f) xs).map f := by
  rw [Run.ofBlock, ← map_sortBlock, blockMeets_map]
  rfl

theorem nextRun_map (eager : Bool) (goal : Nat) (xs : List α) :
    nextRun before eager goal (xs.map f) =
      ((nextRun (pullback before f) eager goal xs).1.map f,
        (nextRun (pullback before f) eager goal xs).2.map f) := by
  unfold nextRun
  rw [naturalRun_map]
  dsimp only
  rw [List.length_map]
  split
  · rfl
  · split
    · rw [← List.map_take, Run.ofBlock_map, List.map_drop]
    · rw [← List.map_take, List.map_drop]
      rfl

section

variable {sort : List β → Run β} {sort' : List α → Run α}
  (hsort : ∀ xs, sort (xs.map f) = (sort' xs).map f)
include hsort

theorem Run.finish_map (run : Run α) : (run.map f).finish sort = (run.finish sort').map f := by
  unfold Run.finish
  cases hs : run.isSorted with
  | false =>
    rw [if_neg (by simp [Run.map, hs]), if_neg (by simp)]
    exact hsort run.items
  | true => rw [if_pos (by simp [Run.map, hs]), if_pos rfl]

theorem Run.join_map (space : Nat) (left right : Run α) :
    (left.map f).join before sort space (right.map f) =
      (left.join (pullback before f) sort' space right).map f := by
  unfold Run.join
  rw [Run.finish_map f hsort, Run.finish_map f hsort, Run.append_map]
  simp only [Run.map, List.length_map]
  split
  · rw [← map_mergeRuns]
  · rfl

end

theorem joinDeeper_map {join : Run β → Run β → Run β} {join' : Run α → Run α → Run α}
    (hjoin : ∀ left right : Run α, join (left.map f) (right.map f) = (join' left right).map f)
    (depth : Nat) (runs : List (Nat × Run α)) (run : Run α) :
    joinDeeper join depth (runs.map (Prod.map id (Run.map f))) (run.map f) =
      Prod.map (List.map (Prod.map id (Run.map f))) (Run.map f)
        (joinDeeper join' depth runs run) := by
  induction runs generalizing run with
  | nil => rfl
  | cons top runs ih =>
    obtain ⟨d, left⟩ := top
    rw [List.map_cons, Prod.map_apply, id_eq, joinDeeper, joinDeeper, hjoin, ih]
    split <;> rfl

theorem joinRuns_map {join : Run β → Run β → Run β} {join' : Run α → Run α → Run α}
    (hjoin : ∀ left right : Run α, join (left.map f) (right.map f) = (join' left right).map f)
    (eager : Bool) (goal n : Nat) (runs : List (Nat × Run α)) (run : Run α) (rest : List α) :
    joinRuns before join eager goal n (runs.map (Prod.map id (Run.map f))) (run.map f)
        (rest.map f) =
      (joinRuns (pullback before f) join' eager goal n runs run rest).map f := by
  fun_induction joinRuns (pullback before f) join' eager goal n runs run rest with
  | case1 runs run =>
    rw [joinRuns, dif_pos List.map_nil, joinDeeper_map f hjoin]
    rfl
  | case2 runs run rest h _ next last depth joined ih =>
    have hne : rest.map f ≠ [] := by simpa using h
    rw [joinRuns, dif_neg hne, ← ih]
    dsimp only
    rw [nextRun_map, joinDeeper_map f hjoin, List.length_map, Run.length_items_map,
      Run.length_items_map]
    rfl

theorem median_map (x y z : α) :
    median before (f x) (f y) (f z) = f (median (pullback before f) x y z) := by
  unfold median pullback
  dsimp only
  split
  · split <;> rfl
  · rfl

theorem nearMedian_map (item : Nat → α) (n i : Nat) :
    nearMedian before (fun j => f (item j)) n i =
      f (nearMedian (pullback before f) item n i) := by
  fun_induction nearMedian (pullback before f) item n i with
  | case1 n i h => rw [nearMedian, if_pos h]
  | case2 n i h ih₁ ih₂ ih₃ => rw [nearMedian, if_neg h, ih₁, ih₂, ih₃, median_map]

theorem sortRuns_map {sort : List β → Run β} {sort' : List α → Run α}
    (hsort : ∀ xs, sort (xs.map f) = (sort' xs).map f) (eager : Bool) (xs : List α) :
    sortRuns before sort eager (xs.map f) = (sortRuns (pullback before f) sort' eager xs).map f := by
  unfold sortRuns
  dsimp only
  rw [nextRun_map, List.length_map]
  have hjoin := joinRuns_map before f (Run.join_map before f hsort (spaceFor xs.length)) eager
    (runGoal xs.length) xs.length []
  rw [List.map_nil] at hjoin
  rw [hjoin, Run.finish_map f hsort]

theorem sortBlocks_map (xs : List α) :
    sortBlocks before (xs.map f) = (sortBlocks (pullback before f) xs).map f := by
  unfold sortBlocks
  rw [List.length_map]
  split
  · exact Run.ofBlock_map before f xs
  · exact sortRuns_map before f (Run.ofBlock_map before f) true xs

theorem pivot_map (x : α) (xs : List α) :
    pivot before (f x) (xs.map f) = f (pivot (pullback before f) x xs) := by
  have hitem : ((xs.map f).getD · (f x)) = fun i => f (xs.getD i x) := by
    funext i
    rw [List.getD_eq_getElem?_getD, List.getElem?_map, Option.getD_map,
      ← List.getD_eq_getElem?_getD]
  unfold pivot
  rw [hitem, List.length_map, nearMedian_map]

theorem sortParts_map (limit : Nat) (floor : Option α) (xs : List α) :
    sortParts before limit (floor.map f) (xs.map f) =
      (sortParts (pullback before f) limit floor xs).map f := by
  fun_induction sortParts (pullback before f) limit floor xs with
  | case1 floor xs => exact sortBlocks_map before f xs
  | case2 limit floor => exact Run.ofBlock_map before f []
  | case3 limit floor x xs h =>
    rw [List.map_cons, sortParts, if_pos (by simpa using h), ← List.map_cons, Run.ofBlock_map]
  | case4 limit floor x xs h p low hlow ih =>
    rw [List.map_cons, sortParts, if_neg (by simpa using h), ← List.map_cons, pivot_map]
    dsimp only
    rw [List.filter_map, List.filter_map, List.filter_map, List.isEmpty_map, Option.any_map]
    refine (if_pos hlow).trans ?_
    rw [← Run.append_map, ← ih]
    rfl
  | case5 limit floor x xs h p low hlow ih₁ ih₂ =>
    rw [List.map_cons, sortParts, if_neg (by simpa using h), ← List.map_cons, pivot_map]
    dsimp only
    rw [List.filter_map, List.filter_map, List.filter_map, List.filter_map, List.isEmpty_map,
      Option.any_map]
    refine (if_neg hlow).trans ?_
    rw [← Run.append_map, ← ih₁, ← ih₂]
    rfl

theorem sortLong_map (xs : List α) :
    sortLong before (xs.map f) = (sortLong (pullback before f) xs).map f := by
  unfold sortLong
  rw [List.length_map]
  refine sortRuns_map before f (fun ys => ?_) _ xs
  rw [List.length_map]
  exact sortParts_map before f _ none ys

theorem map_stableSort (xs : List α) :
    (stableSort (pullback before f) xs).map f = stableSort before (xs.map f) := by
  unfold stableSort
  rw [List.length_map, sortLong_map]
  split
  · exact map_insertionSort before f xs
  · rfl

theorem stableSort?_map (xs : List α) :
    stableSort? before (xs.map f) = (stableSort? (pullback before f) xs).map (List.map f) := by
  unfold stableSort?
  rw [List.length_map, sortLong_map, ← map_stableSort, Run.map]
  split <;> rfl

end HostLookup.Sorting
