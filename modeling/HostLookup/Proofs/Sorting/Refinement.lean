import HostLookup.Proofs.Sorting.Order
import HostLookup.Proofs.Sorting.Permutation

/-!
Sorting by a refined order. `before` may be no order itself: all that is asked is that it follows
one, `coarse`, and sets apart what that does; between elements that are alike there it may say
anything. The result is then in order by `coarse` all the same. Each step keeps that on its own:
inserting, merging from the front, from the back or from both ends, and turning a descending run
round. Where `before` says nothing between elements that are alike, they stay as they stood.
-/
set_option autoImplicit false

namespace HostLookup.Sorting

variable {α : Type} {before coarse : α → α → Bool} {xs ys xs' ys' : List α}

/-- `before` follows an order, and may say more. -/
structure Refines (before coarse : α → α → Bool) : Prop where
  order : IsOrder coarse
  before_of_coarse : ∀ {x y}, coarse x y = true → before x y = true
  not_coarse_of_before : ∀ {x y}, before x y = true → coarse y x = false

/-- `before` says no more than the order between elements that are alike to `z`. -/
def Quiet (before coarse : α → α → Bool) (z : α) : Prop :=
  ∀ x y, alike coarse z x = true → alike coarse z y = true → before x y = false

/-- `ys` is `xs` in order by `coarse`; where `before` says no more, elements that are alike are left
as they stood to each other. -/
structure SortsBy (before coarse : α → α → Bool) (xs ys : List α) : Prop where
  perm : ys.Perm xs
  ordered : Ordered coarse ys
  filter_quiet : ∀ z, Quiet before coarse z →
    ys.filter (alike coarse z) = xs.filter (alike coarse z)

namespace Refines

variable (h : Refines before coarse)
include h

theorem not_coarse {x y : α} (hxy : before x y = false) : coarse x y = false := by
  cases hc : coarse x y with
  | false => rfl
  | true => rw [← hxy, h.before_of_coarse hc]

theorem flip : Refines (fun x y => before y x) fun x y => coarse y x where
  order := h.order.flip
  before_of_coarse := h.before_of_coarse
  not_coarse_of_before := h.not_coarse_of_before

end Refines

namespace Quiet

variable {z : α} (hz : Quiet before coarse z)
include hz

theorem flip : Quiet (fun x y => before y x) (fun x y => coarse y x) z := by
  intro x y hx hy
  rw [alike_flip] at hx hy
  exact hz y x hy hx

theorem of_alike (h : IsOrder coarse) {x : α} (hx : alike coarse z x = true) :
    Quiet before coarse x := by
  intro u v hu hv
  exact hz u v ((h.alike_congr hu z).symm.trans hx) ((h.alike_congr hv z).symm.trans hx)

/-- Of two elements that `before` sets apart only one is alike to `z`. -/
theorem alike_eq_false {x y : α} (hyx : before y x = true) (hy : alike coarse z y = true) :
    alike coarse z x = false := by
  cases hx : alike coarse z x with
  | false => rfl
  | true => rw [← hyx, hz y x hy hx]

end Quiet

namespace SortsBy

theorem of_ordered (hx : Ordered coarse xs) : SortsBy before coarse xs xs :=
  ⟨.refl xs, hx, fun _ _ => rfl⟩

theorem nil : SortsBy before coarse [] [] := .of_ordered .nil

theorem singleton (v : α) : SortsBy before coarse [v] [v] :=
  .of_ordered (Ordered.cons_iff.mpr ⟨by simp, .nil⟩)

/-- What is sorted may be rearranged before, if elements that have to stay as they stand do. -/
theorem of_rearranged (hy : SortsBy before coarse xs' ys) (hp : xs'.Perm xs)
    (hf : ∀ z, Quiet before coarse z →
      xs'.filter (alike coarse z) = xs.filter (alike coarse z)) : SortsBy before coarse xs ys :=
  ⟨hy.perm.trans hp, hy.ordered, fun z hz => (hy.filter_quiet z hz).trans (hf z hz)⟩

/-- Two results show the same where what is shown either depends on the kind of element alone or
belongs to elements that are left as they stood. -/
theorem map_eq {β : Type} (h : IsOrder coarse) (hy : SortsBy before coarse xs ys)
    (hy' : SortsBy before coarse xs ys') (f : α → β)
    (hf : ∀ z, Quiet before coarse z ∨ ∃ b, ∀ x, alike coarse z x = true → f x = b) :
    ys.map f = ys'.map f := by
  refine Ordered.map_eq_of_filter_alike f h hy.ordered hy'.ordered fun z => ?_
  rcases hf z with hz | ⟨b, hb⟩
  · rw [hy.filter_quiet z hz, hy'.filter_quiet z hz]
  · have hconst : ∀ us : List α, (us.filter (alike coarse z)).map f =
        List.replicate (us.filter (alike coarse z)).length b := by
      intro us
      refine List.eq_replicate_iff.mpr ⟨List.length_map f, fun c hc => ?_⟩
      obtain ⟨u, hu, rfl⟩ := List.mem_map.mp hc
      exact hb u (List.of_mem_filter hu)
    rw [hconst, hconst, ((hy.perm.trans hy'.perm.symm).filter _).length_eq]

end SortsBy

section Inserting

/-- The list is held backwards, and so are the orders. -/
theorem ordered_insertBack (h : Refines before coarse) {x : α}
    (hy : Ordered (fun x y => coarse y x) ys) :
    Ordered (fun x y => coarse y x) (insertBack before x ys) := by
  induction ys with
  | nil => exact Ordered.cons_iff.mpr ⟨by simp, .nil⟩
  | cons y ys ih =>
    obtain ⟨hle, hys⟩ := Ordered.cons_iff.mp hy
    rw [insertBack]
    split
    · rename_i hxy
      refine Ordered.cons_iff.mpr ⟨fun u hu => ?_, ih hys⟩
      rcases List.mem_cons.mp ((insertBack_perm before x ys).mem_iff.mp hu) with rfl | hu
      · exact h.not_coarse_of_before hxy
      · exact hle u hu
    · rename_i hxy
      have hxy : coarse x y = false := h.not_coarse (by simpa using hxy)
      refine Ordered.cons_iff.mpr ⟨fun u hu => ?_, hy⟩
      rcases List.mem_cons.mp hu with rfl | hu
      · exact hxy
      · exact h.order.trans_not (hle u hu) hxy

theorem filter_insertBack {z : α} (hz : Quiet before coarse z) (x : α) (ys : List α) :
    (insertBack before x ys).filter (alike coarse z) = (x :: ys).filter (alike coarse z) := by
  induction ys with
  | nil => rfl
  | cons y ys ih =>
    rw [insertBack]
    split
    · rename_i hxy
      rw [List.filter_cons, ih]
      -- What `x` passes is not alike, so at most one of the two is among those alike to `z`.
      cases hx : alike coarse z x with
      | false => simp [List.filter_cons, hx]
      | true => simp [hx, hz.alike_eq_false hxy hx]
    · rfl

theorem ordered_foldl_insertBack (h : Refines before coarse) {us : List α}
    (hu : Ordered (fun x y => coarse y x) us) (ys : List α) :
    Ordered (fun x y => coarse y x) (ys.foldl (fun us y => insertBack before y us) us) := by
  induction ys generalizing us with
  | nil => exact hu
  | cons y ys ih => exact ih (ordered_insertBack h hu)

theorem filter_foldl_insertBack {z : α} (hz : Quiet before coarse z) (us ys : List α) :
    (ys.foldl (fun us y => insertBack before y us) us).filter (alike coarse z) =
      (ys.reverse ++ us).filter (alike coarse z) := by
  induction ys generalizing us with
  | nil => rfl
  | cons y ys ih =>
    rw [List.foldl_cons, ih, List.filter_append, filter_insertBack hz, ← List.filter_append,
      List.reverse_cons, List.append_assoc]
    rfl

theorem sortsBy_insertAll (h : Refines before coarse) (hx : SortsBy before coarse xs xs')
    (ys : List α) : SortsBy before coarse (xs ++ ys) (insertAll before xs' ys) where
  perm := (insertAll_perm before xs' ys).trans (hx.perm.append_right ys)
  ordered := by
    have hback : Ordered (fun x y => coarse y x) xs'.reverse := by
      rw [← Ordered.reverse_iff, List.reverse_reverse]
      exact hx.ordered
    exact Ordered.reverse_iff.mpr (ordered_foldl_insertBack h hback ys)
  filter_quiet z hz := by
    rw [insertAll, List.filter_reverse, filter_foldl_insertBack hz, ← List.filter_reverse,
      List.reverse_append, List.reverse_reverse, List.reverse_reverse, List.filter_append,
      hx.filter_quiet z hz, List.filter_append]

theorem sortsBy_insertionSort (h : Refines before coarse) (xs : List α) :
    SortsBy before coarse xs (insertionSort before xs) :=
  sortsBy_insertAll h .nil xs

end Inserting

section Merging

theorem ordered_merge (h : Refines before coarse) (hx : Ordered coarse xs)
    (hy : Ordered coarse ys) : Ordered coarse (merge before xs ys) := by
  induction xs generalizing ys with
  | nil => exact hy
  | cons x xs ihx =>
    induction ys with
    | nil => exact hx
    | cons y ys ihy =>
      obtain ⟨hxs, hx'⟩ := Ordered.cons_iff.mp hx
      obtain ⟨hys, hy'⟩ := Ordered.cons_iff.mp hy
      rw [merge_cons_cons]
      split
      · rename_i hyx
        have hyx := h.not_coarse_of_before hyx
        refine Ordered.cons_iff.mpr ⟨fun u hu => ?_, ihy hy'⟩
        rw [(merge_perm before _ _).mem_iff, List.mem_append, List.mem_cons] at hu
        rcases hu with (rfl | hu) | hu
        · exact hyx
        · exact h.order.trans_not hyx (hxs u hu)
        · exact hys u hu
      · rename_i hyx
        have hyx : coarse y x = false := h.not_coarse (by simpa using hyx)
        refine Ordered.cons_iff.mpr ⟨fun u hu => ?_, ihx hx' hy⟩
        rw [(merge_perm before _ _).mem_iff, List.mem_append, List.mem_cons] at hu
        rcases hu with hu | rfl | hu
        · exact hxs u hu
        · exact hyx
        · exact h.order.trans_not hyx (hys u hu)

theorem filter_merge (h : Refines before coarse) (hx : Ordered coarse xs) {z : α}
    (hz : Quiet before coarse z) :
    (merge before xs ys).filter (alike coarse z) = (xs ++ ys).filter (alike coarse z) := by
  induction xs generalizing ys with
  | nil => rfl
  | cons x xs ihx =>
    induction ys with
    | nil => rw [merge_nil_right, List.append_nil]
    | cons y ys ihy =>
      obtain ⟨hxs, hx'⟩ := Ordered.cons_iff.mp hx
      rw [merge_cons_cons]
      split
      · rename_i hyx
        cases hzy : alike coarse z y with
        | false =>
          have hzy : ¬ alike coarse z y = true := by simp [hzy]
          rw [List.filter_cons_of_neg hzy, ihy, List.filter_append, List.filter_append,
            List.filter_cons_of_neg hzy]
        | true =>
          -- `y` comes before all of the left run, which hence holds nothing alike to `z`: else the
          -- first of the run, which stands between, were alike to `z` as well.
          have hnone : (x :: xs).filter (alike coarse z) = [] := by
            have hzx := hz.alike_eq_false hyx hzy
            rw [List.filter_eq_nil_iff]
            intro u hu hzu
            rcases List.mem_cons.mp hu with rfl | hu
            · rw [hzu] at hzx
              cases hzx
            · rw [h.order.alike_between hzy hzu (h.not_coarse_of_before hyx) (hxs u hu)] at hzx
              cases hzx
          rw [List.filter_cons_of_pos hzy, ihy, List.filter_append, List.filter_append, hnone,
            List.nil_append, List.nil_append, List.filter_cons_of_pos hzy]
      · rw [List.filter_cons, ihx hx', List.cons_append, List.filter_cons]

theorem sortsBy_merge (h : Refines before coarse) (hx : SortsBy before coarse xs xs')
    (hy : SortsBy before coarse ys ys') :
    SortsBy before coarse (xs ++ ys) (merge before xs' ys') where
  perm := (merge_perm before xs' ys').trans (hx.perm.append hy.perm)
  ordered := ordered_merge h hx.ordered hy.ordered
  filter_quiet z hz := by
    rw [filter_merge h hx.ordered hz, List.filter_append, hx.filter_quiet z hz,
      hy.filter_quiet z hz, List.filter_append]

theorem sortsBy_mergeBack (h : Refines before coarse) (hx : SortsBy before coarse xs xs')
    (hy : SortsBy before coarse ys ys') :
    SortsBy before coarse (xs ++ ys) (mergeBack before xs' ys') where
  perm := (mergeBack_perm before xs' ys').trans (hx.perm.append hy.perm)
  ordered := Ordered.reverse_iff.mpr
    (ordered_merge h.flip (Ordered.reverse_iff.mpr hy.ordered) (Ordered.reverse_iff.mpr hx.ordered))
  filter_quiet z hz := by
    have hf : (merge (fun x y => before y x) ys'.reverse xs'.reverse).filter (alike coarse z) =
        (ys'.reverse ++ xs'.reverse).filter (alike coarse z) := by
      rw [← alike_flip]
      exact filter_merge h.flip (Ordered.reverse_iff.mpr hy.ordered) hz.flip
    rw [← List.reverse_append, List.filter_reverse] at hf
    rw [mergeBack, List.filter_reverse, hf, List.reverse_reverse, List.filter_append,
      hx.filter_quiet z hz, hy.filter_quiet z hz, List.filter_append]

theorem sortsBy_mergeRuns (h : Refines before coarse) (hx : SortsBy before coarse xs xs')
    (hy : SortsBy before coarse ys ys') :
    SortsBy before coarse (xs ++ ys) (mergeRuns before xs' ys') := by
  unfold mergeRuns
  split
  · exact sortsBy_merge h hx hy
  · exact sortsBy_mergeBack h hx hy

/-- Of a list whose beginning and end are known, at most one element is missing between them. -/
theorem eq_of_perm_between {middle : List α} {i j : Nat} (hij : i ≤ j) (hji : j ≤ i + 1)
    (hp : (xs.take i ++ middle ++ xs.drop j).Perm xs) :
    xs.take i ++ middle ++ xs.drop j = xs := by
  have hsplit : xs.take i ++ (xs.drop i).take (j - i) ++ xs.drop j = xs := by
    rw [List.append_assoc, show xs.drop j = (xs.drop i).drop (j - i) by
      rw [List.drop_drop, Nat.add_sub_cancel' hij], List.take_append_drop, List.take_append_drop]
  have hmiddle : middle.Perm ((xs.drop i).take (j - i)) := by
    have hp := hp.trans (.of_eq hsplit.symm)
    rwa [List.perm_append_right_iff, List.perm_append_left_iff] at hp
  have hle : ((xs.drop i).take (j - i)).length ≤ 1 := by
    rw [List.length_take]
    omega
  have heq : middle = (xs.drop i).take (j - i) := by
    match hm : (xs.drop i).take (j - i), hle with
    | [], _ =>
      rw [hm] at hmiddle
      exact hmiddle.eq_nil
    | [m], _ =>
      rw [hm] at hmiddle
      exact hmiddle.eq_singleton
  rw [heq, hsplit]

/-- What merging shows from both ends it shows when it starts from both. -/
theorem map_mergeHalves_eq {β : Type} {f : α → β}
    (hlen : ys.length = xs.length ∨ ys.length = xs.length + 1)
    (hf : (mergeBack before xs ys).map f = (merge before xs ys).map f) :
    (mergeHalves before xs ys).map f = (merge before xs ys).map f := by
  -- The ends are those of the merged list, and what is put between them makes up a permutation.
  have hp := ((mergeHalves_perm before hlen).trans (merge_perm before xs ys).symm).map f
  have hends : ∀ middle : List α,
      (((merge before xs ys).take xs.length ++ middle ++
          (mergeBack before xs ys).drop ys.length).map f).Perm ((merge before xs ys).map f) →
        ((merge before xs ys).take xs.length ++ middle ++
          (mergeBack before xs ys).drop ys.length).map f = (merge before xs ys).map f := by
    intro middle
    rw [List.map_append, List.map_append, List.map_take, List.map_drop, hf]
    exact eq_of_perm_between (by omega) (by omega)
  revert hp
  unfold mergeHalves
  dsimp only
  split
  · split
    · exact hends []
    · exact fun _ => rfl
  · split
    · exact hends _
    · split
      · exact hends _
      · exact fun _ => rfl

/-- Whether a list is in order depends on the kinds of its elements alone. -/
theorem ordered_iff_map_alike (h : IsOrder coarse) : Ordered coarse xs ↔
    (xs.map (alike coarse)).Pairwise fun p q => ∀ u v, p u = true → q v = true →
      coarse v u = false := by
  rw [List.pairwise_map, Ordered]
  refine List.Pairwise.iff fun x y => ?_
  constructor
  · intro hyx u v hu hv
    exact h.trans_not (h.trans_not (alike_eq_true.mp hu).1 hyx) (alike_eq_true.mp hv).2
  · intro hle
    exact hle x y (h.alike_self x) (h.alike_self y)

theorem sortsBy_mergeHalves (h : Refines before coarse) (hx : SortsBy before coarse xs xs')
    (hy : SortsBy before coarse ys ys')
    (hlen : ys'.length = xs'.length ∨ ys'.length = xs'.length + 1) :
    SortsBy before coarse (xs ++ ys) (mergeHalves before xs' ys') := by
  have hfront := sortsBy_merge h hx hy
  have hback := sortsBy_mergeBack h hx hy
  refine ⟨(mergeHalves_perm before hlen).trans (hx.perm.append hy.perm), ?_, fun z hz => ?_⟩
  · have hkinds : ∀ z, ∃ p, ∀ x, alike coarse z x = true → alike coarse x = p := by
      refine fun z => ⟨alike coarse z, fun x hx => funext fun u => ?_⟩
      rw [alike_comm, ← h.order.alike_congr hx, alike_comm]
    have hmap := map_mergeHalves_eq hlen
      (hback.map_eq h.order hfront (alike coarse) fun z => .inr (hkinds z))
    rw [ordered_iff_map_alike h.order, hmap, ← ordered_iff_map_alike h.order]
    exact hfront.ordered
  · have hkept : ∀ u, Quiet before coarse u ∨
        ∃ b, ∀ x, alike coarse u x = true → Option.guard (alike coarse z) x = b := by
      intro u
      cases hu : alike coarse z u with
      | true => exact .inl (hz.of_alike h.order hu)
      | false =>
        refine .inr ⟨none, fun x hx => ?_⟩
        rw [Option.guard_eq_none_iff, ← h.order.alike_congr hx, hu]
    have hmap := map_mergeHalves_eq hlen (hback.map_eq h.order hfront _ hkept)
    have hfilter : ∀ us : List α,
        us.filter (alike coarse z) = (us.map (Option.guard (alike coarse z))).filterMap id := by
      intro us
      rw [List.filterMap_map, ← List.filterMap_eq_filter]
      rfl
    rw [hfilter, hmap, ← hfilter]
    exact hfront.filter_quiet z hz

end Merging

section Blocks

theorem sortsBy_pair (h : Refines before coarse) (u v : α) :
    SortsBy before coarse [u, v] (if before v u then [v, u] else [u, v]) := by
  have hm := sortsBy_merge h (.singleton u) (.singleton v)
  rwa [merge_cons_cons] at hm

/-- Two elements are put in order between one that does not come after them and one that they do
not come after. -/
theorem sortsBy_between (h : Refines before coarse) {first left right last : α}
    (hfirst : ∀ u ∈ [left, right, last], coarse u first = false)
    (hlast : ∀ u ∈ [left, right], coarse last u = false) :
    SortsBy before coarse [first, left, right, last]
      (if before right left then [first, right, left, last]
        else [first, left, right, last]) := by
  have hpair := sortsBy_pair h left right
  have heq : (if before right left then [first, right, left, last]
      else [first, left, right, last]) =
        first :: ((if before right left then [right, left] else [left, right]) ++ [last]) := by
    split <;> rfl
  rw [heq]
  refine ⟨(hpair.perm.append_right [last]).cons first, Ordered.cons_iff.mpr ⟨fun u hu => ?_, ?_⟩,
    fun z hz => ?_⟩
  · exact hfirst u ((hpair.perm.append_right [last]).mem_iff.mp hu)
  · refine List.pairwise_append.mpr ⟨hpair.ordered, List.pairwise_singleton _ _, ?_⟩
    intro u hu v hv
    rw [List.mem_singleton.mp hv]
    exact hlast u (hpair.perm.mem_iff.mp hu)
  · rw [List.filter_cons, List.filter_append, hpair.filter_quiet z hz, ← List.filter_append,
      ← List.filter_cons]
    rfl

/-- Two pairs in order, of which the first and the last element are looked for at their ends. -/
theorem sortsBy_ends (h : Refines before coarse) {a b c d : α} (hba : coarse b a = false)
    (hdc : coarse d c = false) :
    let first := if before c a then c else a
    let last := if before d b then b else d
    let left := if before c a then a else if before d b then c else b
    let right := if before d b then d else if before c a then b else c
    SortsBy before coarse [a, b, c, d]
      (if before right left then [first, right, left, last]
        else [first, left, right, last]) := by
  have htrans : ∀ {x y z}, coarse y x = false → coarse z y = false → coarse z x = false :=
    h.order.trans_not
  -- What is moved past a whole pair is not alike to either of the two.
  have hfirst : before c a = true → ∀ z, Quiet before coarse z → alike coarse z c = true →
      alike coarse z a = false ∧ alike coarse z b = false := by
    intro hca z hz hc
    have ha := hz.alike_eq_false hca hc
    refine ⟨ha, Bool.eq_false_iff.mpr fun hb => ?_⟩
    rw [h.order.alike_between hc hb (h.not_coarse_of_before hca) hba] at ha
    cases ha
  have hlast : before d b = true → ∀ z, Quiet before coarse z → alike coarse z b = true →
      alike coarse z c = false ∧ alike coarse z d = false := by
    intro hdb z hz hb
    have hd : alike coarse z d = false := Bool.eq_false_iff.mpr fun hd => by
      rw [hz.alike_eq_false hdb hd] at hb
      cases hb
    refine ⟨Bool.eq_false_iff.mpr fun hc => ?_, hd⟩
    rw [h.order.alike_between hc hb hdc (h.not_coarse_of_before hdb)] at hd
    cases hd
  have hperm := fun firstRight lastLeft => ends_perm a b c d firstRight lastLeft false
  cases hca : before c a with
  | false =>
    have hca := h.not_coarse hca
    cases hdb : before d b with
    | false =>
      have hdb := h.not_coarse hdb
      exact sortsBy_between h (by simp [hba, hca, htrans hca hdc])
        (by simp [hdb, hdc])
    | true =>
      have hbd := h.not_coarse_of_before hdb
      refine (sortsBy_between h ?_ ?_).of_rearranged (hperm false true) fun z hz => ?_
      · simp [hba, hca, htrans hca hdc]
      · simp [hbd, htrans hdc hbd]
      · cases hb : alike coarse z b with
        | false => simp [List.filter_cons, hb]
        | true => simp [List.filter_cons, hb, hlast hdb z hz hb]
  | true =>
    have hac := h.not_coarse_of_before hca
    cases hdb : before d b with
    | false =>
      have hdb := h.not_coarse hdb
      refine (sortsBy_between h ?_ ?_).of_rearranged (hperm true false) fun z hz => ?_
      · simp [hac, htrans hac hba, hdc]
      · simp [hdb, htrans hba hdb]
      · cases hc : alike coarse z c with
        | false => simp [List.filter_cons, hc]
        | true => simp [List.filter_cons, hc, hfirst hca z hz hc]
    | true =>
      have hbd := h.not_coarse_of_before hdb
      refine (sortsBy_between h ?_ ?_).of_rearranged (hperm true true) fun z hz => ?_
      · simp [hac, hdc, htrans hac hba]
      · simp [hba, hbd]
      · cases hc : alike coarse z c with
        | true => simp [List.filter_cons, hc, hfirst hca z hz hc]
        | false =>
          cases hb : alike coarse z b with
          | false => simp [List.filter_cons, hc, hb]
          | true => simp [List.filter_cons, hc, hb, hlast hdb z hz hb]

theorem sortsBy_sortFour (h : Refines before coarse) (v₀ v₁ v₂ v₃ : α) :
    SortsBy before coarse [v₀, v₁, v₂, v₃] (sortFour before v₀ v₁ v₂ v₃) := by
  have hpair : ∀ u v : α, ∃ a b, (if before v u then (v, u) else (u, v)) = (a, b) ∧
      SortsBy before coarse [u, v] [a, b] := by
    intro u v
    have hs := sortsBy_pair h u v
    split at hs
    · rename_i hvu
      exact ⟨v, u, if_pos hvu, hs⟩
    · rename_i hvu
      exact ⟨u, v, if_neg hvu, hs⟩
  obtain ⟨a, b, hab, hl⟩ := hpair v₀ v₁
  obtain ⟨c, d, hcd, hr⟩ := hpair v₂ v₃
  have hends := sortsBy_ends h ((Ordered.cons_iff.mp hl.ordered).1 b List.mem_cons_self)
    ((Ordered.cons_iff.mp hr.ordered).1 d List.mem_cons_self)
  unfold sortFour
  rw [hab, hcd]
  refine hends.of_rearranged (hl.perm.append hr.perm) fun z hz => ?_
  have happend : ∀ u v w x : α, [u, v, w, x] = [u, v] ++ [w, x] := fun _ _ _ _ => rfl
  rw [happend, happend v₀, List.filter_append, hl.filter_quiet z hz, hr.filter_quiet z hz,
    ← List.filter_append]

theorem sortsBy_sortHalf (h : Refines before coarse) (large : Bool) (xs : List α) :
    SortsBy before coarse xs (sortHalf before large xs) := by
  unfold sortHalf
  split
  · split
    · exact sortsBy_insertAll h (sortsBy_sortFour h _ _ _ _) _
    · exact sortsBy_insertionSort h _
  · exact sortsBy_insertionSort h _

theorem sortsBy_sortBlock (h : Refines before coarse) (xs : List α) :
    SortsBy before coarse xs (sortBlock before xs) := by
  have hl := sortsBy_sortHalf h (decide (8 ≤ xs.length)) (xs.take (xs.length / 2))
  have hr := sortsBy_sortHalf h (decide (8 ≤ xs.length)) (xs.drop (xs.length / 2))
  have hlen := hl.perm.length_eq
  have hlen' := hr.perm.length_eq
  rw [List.length_take] at hlen
  rw [List.length_drop] at hlen'
  have hm := sortsBy_mergeHalves h hl hr (by omega)
  rwa [List.take_append_drop] at hm

end Blocks

section Runs

theorem isChain_spanRun (follows : α → α → Bool) (last : α) (xs : List α) :
    (last :: (spanRun follows last xs).1).IsChain fun x y => follows x y = true := by
  induction xs generalizing last with
  | nil => exact .singleton last
  | cons y ys ih =>
    rw [spanRun]
    split
    · rename_i hy
      exact .cons_cons hy (ih y)
    · exact .singleton last

/-- What each element of a run is to the next one it is to all that follow. -/
theorem pairwise_spanRun (R : α → α → Prop) (follows : α → α → Bool)
    (htrans : ∀ {x y z}, R x y → R y z → R x z) (hfollows : ∀ {x y}, follows x y = true → R x y) {x y : α}
    (hxy : follows x y = true) (xs : List α) : (x :: y :: (spanRun follows y xs).1).Pairwise R := by
  have : IsTrans α R := ⟨fun _ _ _ => htrans⟩
  have hchain : (x :: y :: (spanRun follows y xs).1).IsChain fun x y => follows x y = true :=
    .cons_cons hxy (isChain_spanRun follows y xs)
  exact (hchain.imp fun _ _ => hfollows).pairwise

/-- The second element does not come after the first one, nor is it left where it stands. -/
def Falls (before coarse : α → α → Bool) (x y : α) : Prop :=
  coarse x y = false ∧
    ∀ z, Quiet before coarse z → alike coarse z x = true → alike coarse z y = false

theorem Falls.of_before (h : Refines before coarse) {x y : α} (hyx : before y x = true) :
    Falls before coarse x y := by
  refine ⟨h.not_coarse_of_before hyx, fun z hz hx => ?_⟩
  cases hy : alike coarse z y with
  | false => rfl
  | true => rw [← hx, hz.alike_eq_false hyx hy]

theorem Falls.trans (h : IsOrder coarse) {x y w : α} (hxy : Falls before coarse x y)
    (hyw : Falls before coarse y w) : Falls before coarse x w := by
  refine ⟨h.trans_not hyw.1 hxy.1, fun z hz hx => ?_⟩
  cases hw : alike coarse z w with
  | false => rfl
  | true =>
    have hy := hxy.2 z hz hx
    rw [h.alike_between hw hx hyw.1 hxy.1] at hy
    cases hy

/-- A descending run holds no two elements that have to be left as they stand, so it may be turned
round. -/
theorem sortsBy_reverse (hx : xs.Pairwise (Falls before coarse)) :
    SortsBy before coarse xs xs.reverse where
  perm := List.reverse_perm xs
  ordered := Ordered.reverse_iff.mpr (hx.imp And.left)
  filter_quiet z hz := by
    rw [List.filter_reverse]
    have hf := hx.filter (alike coarse z)
    match hl : xs.filter (alike coarse z) with
    | [] => rfl
    | [_] => rfl
    | x :: y :: _ =>
      have hxz : x ∈ xs.filter (alike coarse z) := by simp [hl]
      have hyz : y ∈ xs.filter (alike coarse z) := by simp [hl]
      rw [hl, List.pairwise_cons] at hf
      have hy := (hf.1 y List.mem_cons_self).2 z hz (List.of_mem_filter hxz)
      rw [List.of_mem_filter hyz] at hy
      cases hy

theorem sortsBy_naturalRun (h : Refines before coarse) (xs : List α) :
    ∃ taken, taken ++ (naturalRun before xs).2 = xs ∧
      SortsBy before coarse taken (naturalRun before xs).1 := by
  match xs with
  | [] => exact ⟨[], rfl, .nil⟩
  | [x] => exact ⟨[x], rfl, .singleton x⟩
  | x :: y :: xs =>
    rw [naturalRun]
    split
    · rename_i hyx
      refine ⟨x :: y :: (spanRun (fun last z => before z last) y xs).1, ?_, sortsBy_reverse ?_⟩
      · exact congrArg (x :: y :: ·) (spanRun_append _ y xs)
      · exact pairwise_spanRun (Falls before coarse) (fun last z => before z last) (Falls.trans h.order)
          (Falls.of_before h) hyx xs
    · rename_i hyx
      refine ⟨x :: y :: (spanRun (fun last z => !before z last) y xs).1, ?_, .of_ordered ?_⟩
      · exact congrArg (x :: y :: ·) (spanRun_append _ y xs)
      · have hyx : (!before y x) = true := by simpa using hyx
        have hfollows : ∀ {u v : α}, (!before v u) = true → coarse v u = false :=
          fun hvu => h.not_coarse (by simpa using hvu)
        exact pairwise_spanRun (fun u v => coarse v u = false) (fun last z => !before z last)
          h.order.trans_not hfollows hyx xs

end Runs

end HostLookup.Sorting
