import HostLookup.Proofs.Sorting.Meeting

/-!
Sorting by runs. What is kept of each run is the part of the list that it comes from: a run that is
sorted sorts this part, any other one is the part as it stands. Joining runs keeps that for the parts
put together, in whatever order they are joined, and so does parting a list at an element, wherever
that is from.
-/
set_option autoImplicit false

namespace HostLookup.Sorting

variable {α : Type} {before coarse : α → α → Bool}

/-- A run comes from a part of the list. -/
structure Run.Sorts (before coarse : α → α → Bool) (part : List α) (run : Run α) : Prop where
  sortsBy : run.isSorted = true → SortsBy before coarse part run.items
  items_eq : run.isSorted = false → run.items = part
  meets : IsOrder before → run.meets = true

/-- Every list is sorted. -/
def SortsAll (before coarse : α → α → Bool) (sort : List α → Run α) : Prop :=
  ∀ xs, (sort xs).isSorted = true ∧ (sort xs).Sorts before coarse xs

namespace Run

variable {part part' : List α} {run run' : Run α}

theorem Sorts.of_sortsBy {items : List α} (h : SortsBy before coarse part items) :
    Run.Sorts before coarse part ⟨items, true, true⟩ :=
  ⟨fun _ => h, nofun, fun _ => rfl⟩

theorem sortsAll_ofBlock (h : Refines before coarse) : SortsAll before coarse (ofBlock before) :=
  fun xs => ⟨rfl, fun _ => sortsBy_sortBlock h xs, nofun, fun ho => blockMeets_of_isOrder ho xs⟩

theorem Sorts.finish {sort : List α → Run α} (hs : SortsAll before coarse sort)
    (h : run.Sorts before coarse part) :
    (run.finish sort).isSorted = true ∧ (run.finish sort).Sorts before coarse part := by
  unfold Run.finish
  cases hr : run.isSorted with
  | false =>
    rw [if_neg (by simp), h.items_eq hr]
    exact hs part
  | true =>
    rw [if_pos rfl]
    exact ⟨hr, h⟩

theorem Sorts.join {sort : List α → Run α} (h : Refines before coarse)
    (hs : SortsAll before coarse sort) (hl : run.Sorts before coarse part)
    (hr : run'.Sorts before coarse part') (space : Nat) :
    (run.join before sort space run').Sorts before coarse (part ++ part') := by
  unfold Run.join
  split
  · obtain ⟨hsorted, hfinish⟩ := hl.finish hs
    obtain ⟨hsorted', hfinish'⟩ := hr.finish hs
    refine ⟨fun _ => ?_, nofun, fun ho => ?_⟩
    · exact sortsBy_mergeRuns h (hfinish.sortsBy hsorted) (hfinish'.sortsBy hsorted')
    · simp [hfinish.meets ho, hfinish'.meets ho]
  · rename_i hunsorted
    simp only [Bool.or_eq_true, not_or, Bool.not_eq_true] at hunsorted
    obtain ⟨⟨hrun, hrun'⟩, _⟩ := hunsorted
    refine ⟨fun hsorted => ?_, fun _ => ?_, fun ho => ?_⟩
    · simp [Run.append, hrun] at hsorted
    · rw [Run.append, hl.items_eq hrun, hr.items_eq hrun']
    · simp [Run.append, hl.meets ho, hr.meets ho]

end Run

theorem sorts_nextRun (h : Refines before coarse) (eager : Bool) (goal : Nat) (xs : List α) :
    ∃ taken, taken ++ (nextRun before eager goal xs).2 = xs ∧
      (nextRun before eager goal xs).1.Sorts before coarse taken := by
  unfold nextRun
  dsimp only
  split
  · obtain ⟨taken, htaken, hrun⟩ := sortsBy_naturalRun h xs
    exact ⟨taken, htaken, .of_sortsBy hrun⟩
  · split
    · exact ⟨_, List.take_append_drop blockSize xs, (Run.sortsAll_ofBlock h _).2⟩
    · exact ⟨_, List.take_append_drop goal xs, nofun, fun _ => rfl, fun _ => rfl⟩

section Joining

/-- The runs come from the parts that make up the front of a list; the last one is on top. -/
inductive Stacked (before coarse : α → α → Bool) : List (Nat × Run α) → List α → Prop
  | nil : Stacked before coarse [] []
  | cons {runs : List (Nat × Run α)} {front part : List α} {run : Run α} (depth : Nat) :
      Stacked before coarse runs front → run.Sorts before coarse part →
        Stacked before coarse ((depth, run) :: runs) (front ++ part)

variable {join : Run α → Run α → Run α}
  (hjoin : ∀ {left right : Run α} {part part' : List α}, left.Sorts before coarse part →
    right.Sorts before coarse part' → (join left right).Sorts before coarse (part ++ part'))
include hjoin

theorem Stacked.joinDeeper {runs : List (Nat × Run α)} {front part : List α} {run : Run α}
    (h : Stacked before coarse runs front) (hr : run.Sorts before coarse part) (depth : Nat) :
    ∃ front' part', front' ++ part' = front ++ part ∧
      Stacked before coarse (joinDeeper join depth runs run).1 front' ∧
      (joinDeeper join depth runs run).2.Sorts before coarse part' := by
  induction h generalizing run part with
  | nil => exact ⟨[], part, rfl, .nil, hr⟩
  | @cons runs front top left d hruns hleft ih =>
    rw [Sorting.joinDeeper]
    split
    · obtain ⟨front', part', heq, hstack, hlast⟩ := ih (hjoin hleft hr)
      exact ⟨front', part', heq.trans (List.append_assoc ..).symm, hstack, hlast⟩
    · exact ⟨front ++ top, part, rfl, hruns.cons d hleft, hr⟩

/-- Nothing is left to be joined with at depth zero. -/
theorem Stacked.joinDeeper_zero {runs : List (Nat × Run α)} {front part : List α} {run : Run α}
    (h : Stacked before coarse runs front) (hr : run.Sorts before coarse part) :
    (Sorting.joinDeeper join 0 runs run).2.Sorts before coarse (front ++ part) := by
  induction h generalizing run part with
  | nil => exact hr
  | cons d _ hleft ih =>
    rw [Sorting.joinDeeper, if_pos (Nat.zero_le d), List.append_assoc]
    exact ih (hjoin hleft hr)

theorem sorts_joinRuns (h : Refines before coarse) (eager : Bool) (goal n : Nat)
    (runs : List (Nat × Run α)) (run : Run α) (rest : List α) {front part : List α}
    (hruns : Stacked before coarse runs front) (hr : run.Sorts before coarse part) :
    (joinRuns before join eager goal n runs run rest).Sorts before coarse
      (front ++ part ++ rest) := by
  fun_induction joinRuns before join eager goal n runs run rest generalizing front part with
  | case1 runs run =>
    rw [List.append_nil]
    exact hruns.joinDeeper_zero hjoin hr
  | case2 runs run rest hne _ next last depth =>
    rename_i ih
    -- However far the runs are joined, they make up the same front, and the next one follows it.
    obtain ⟨taken, htaken, hnext⟩ := sorts_nextRun h eager goal rest
    obtain ⟨front', part', heq, hstack, hlast⟩ := hruns.joinDeeper hjoin hr depth
    have hrest := ih (hstack.cons depth hlast) hnext
    rwa [List.append_assoc, htaken, heq] at hrest

end Joining

theorem sortsAll_sortRuns {sort : List α → Run α} (h : Refines before coarse)
    (hs : SortsAll before coarse sort) (eager : Bool) :
    SortsAll before coarse (sortRuns before sort eager) := by
  intro xs
  obtain ⟨taken, htaken, hfirst⟩ := sorts_nextRun h eager (runGoal xs.length) xs
  have hjoined := sorts_joinRuns (fun hl hr => Run.Sorts.join h hs hl hr (spaceFor xs.length)) h
    eager (runGoal xs.length) xs.length [] _ (nextRun before eager (runGoal xs.length) xs).2 .nil
    hfirst
  rw [List.nil_append, htaken] at hjoined
  exact hjoined.finish hs

section Parting

variable {xs ys zs : List α}

/-- The elements alike to `z` are all in one part. -/
def Together (coarse : α → α → Bool) (p : α → Bool) (xs : List α) (z : α) : Prop :=
  ∃ b, ∀ x ∈ xs, alike coarse z x = true → p x = b

theorem filter_together {p : α → Bool} {z : α} (h : Together coarse p xs z) :
    (xs.filter p).filter (alike coarse z) ++ (xs.filter fun x => !p x).filter (alike coarse z) =
      xs.filter (alike coarse z) := by
  obtain ⟨b, hb⟩ := h
  have hp : ∀ x ∈ xs, (alike coarse z x && p x) = (alike coarse z x && b) := by
    intro x hx
    cases hz : alike coarse z x with
    | false => rfl
    | true => rw [hb x hx hz]
  have hnp : ∀ x ∈ xs, (alike coarse z x && !p x) = (alike coarse z x && !b) := by
    intro x hx
    cases hz : alike coarse z x with
    | false => rfl
    | true => rw [hb x hx hz]
  rw [List.filter_filter, List.filter_filter, List.filter_congr hp, List.filter_congr hnp]
  cases b <;> simp

theorem sortsBy_parted {p : α → Bool} (hl : SortsBy before coarse (xs.filter p) ys)
    (hr : SortsBy before coarse (xs.filter fun x => !p x) zs)
    (hle : ∀ x ∈ xs, ∀ y ∈ xs, p x = true → p y = false → coarse y x = false)
    (htogether : ∀ z, Quiet before coarse z → Together coarse p xs z) :
    SortsBy before coarse xs (ys ++ zs) where
  perm := (hl.perm.append hr.perm).trans (List.filter_append_perm p xs)
  ordered := by
    refine List.pairwise_append.mpr ⟨hl.ordered, hr.ordered, fun x hx y hy => ?_⟩
    obtain ⟨hx, hpx⟩ := List.mem_filter.mp (hl.perm.mem_iff.mp hx)
    obtain ⟨hy, hpy⟩ := List.mem_filter.mp (hr.perm.mem_iff.mp hy)
    exact hle x hx y hy hpx (by simpa using hpy)
  filter_quiet z hz := by
    rw [List.filter_append, hl.filter_quiet z hz, hr.filter_quiet z hz,
      filter_together (htogether z hz)]

/-- What comes before an element is put before the rest. -/
theorem sortsBy_low (h : Refines before coarse) {p : α}
    (hl : SortsBy before coarse (xs.filter (before · p)) ys)
    (hr : SortsBy before coarse (xs.filter fun x => !before x p) zs) :
    SortsBy before coarse xs (ys ++ zs) := by
  refine sortsBy_parted hl hr (fun x _ y _ hx hy => ?_) fun z hz => ?_
  · exact h.order.trans_not (h.not_coarse_of_before hx) (h.not_coarse hy)
  · by_cases hlow : ∃ x, alike coarse z x = true ∧ before x p = true
    · -- The element stands between those of the two parts, but is not alike to `z` itself.
      obtain ⟨x, hzx, hx⟩ := hlow
      refine ⟨true, fun y _ hzy => Bool.eq_true_of_not_eq_false fun hy => ?_⟩
      have hzp := hz.alike_eq_false hx hzx
      rw [h.order.alike_between hzx hzy (h.not_coarse_of_before hx) (h.not_coarse hy)] at hzp
      cases hzp
    · exact ⟨false, fun x _ hzx => Bool.eq_false_iff.mpr fun hx => hlow ⟨x, hzx, hx⟩⟩

section

variable {floor p : α} (h : Refines before coarse) (hfloor : ∀ x ∈ xs, coarse x floor = false)
  (hp : coarse floor p = false)
include h hfloor hp

/-- Where an element does not come after the floor, what it does not come before is alike to it, and
needs no sorting. -/
theorem ordered_same : Ordered coarse (xs.filter fun x => !before p x) := by
  refine List.pairwise_of_forall_mem_list fun x hx y hy => ?_
  obtain ⟨_, hx⟩ := List.mem_filter.mp hx
  obtain ⟨hy, _⟩ := List.mem_filter.mp hy
  have hxp : coarse p x = false := h.not_coarse (by simpa using hx)
  exact h.order.trans_not hxp (h.order.trans_not hp (hfloor y hy))

theorem sortsBy_same (hl : SortsBy before coarse (xs.filter fun x => !before p x) ys)
    (hr : SortsBy before coarse (xs.filter (before p ·)) zs) :
    SortsBy before coarse xs (ys ++ zs) := by
  have hbelow : ∀ {x}, (!before p x) = true → coarse p x = false := fun hx =>
    h.not_coarse (by simpa using hx)
  have habove : ∀ x ∈ xs, coarse x p = false := fun x hx => h.order.trans_not hp (hfloor x hx)
  refine sortsBy_parted hl (by simpa using hr) (fun x _ y hy hx _ => ?_) fun z hz => ?_
  · exact h.order.trans_not (hbelow hx) (habove y hy)
  · by_cases hzp : alike coarse z p = true
    · refine ⟨true, fun x _ hzx => ?_⟩
      dsimp only
      rw [hz p x hzp hzx]
      rfl
    · refine ⟨false, fun x hx hzx => Bool.eq_false_iff.mpr fun hpx => hzp ?_⟩
      exact h.order.alike_between hzx hzx (hbelow hpx) (habove x hx)

end

theorem Run.Sorts.append {part part' : List α} {run run' : Run α}
    (hl : run.isSorted = true ∧ run.Sorts before coarse part)
    (hr : run'.isSorted = true ∧ run'.Sorts before coarse part')
    (happend : SortsBy before coarse part run.items → SortsBy before coarse part' run'.items →
      SortsBy before coarse xs (run.items ++ run'.items)) :
    (run.append run').isSorted = true ∧ (run.append run').Sorts before coarse xs := by
  have hsorted : (run.append run').isSorted = true := by simp [Run.append, hl.1, hr.1]
  refine ⟨hsorted, fun _ => happend (hl.2.sortsBy hl.1) (hr.2.sortsBy hr.1), fun hnot => ?_,
    fun ho => ?_⟩
  · rw [hsorted] at hnot
    cases hnot
  · simp [Run.append, hl.2.meets ho, hr.2.meets ho]

theorem sortsAll_sortBlocks (h : Refines before coarse) :
    SortsAll before coarse (sortBlocks before) := by
  intro xs
  unfold sortBlocks
  split
  · exact Run.sortsAll_ofBlock h xs
  · exact sortsAll_sortRuns h (Run.sortsAll_ofBlock h) true xs

theorem sorts_sortParts (h : Refines before coarse) (limit : Nat) (floor : Option α)
    (xs : List α) (hfloor : ∀ y ∈ floor, ∀ x ∈ xs, coarse x y = false) :
    (sortParts before limit floor xs).isSorted = true ∧
      (sortParts before limit floor xs).Sorts before coarse xs := by
  fun_induction sortParts before limit floor xs with
  | case1 floor xs => exact sortsAll_sortBlocks h xs
  | case2 limit floor => exact Run.sortsAll_ofBlock h []
  | case3 limit floor x xs => exact Run.sortsAll_ofBlock h (x :: xs)
  | case4 limit floor x xs _ p low hlow ih =>
    -- Either nothing comes before `p`, or the floor does not.
    have hbound : ∃ y, (∀ x' ∈ x :: xs, coarse x' y = false) ∧ coarse y p = false := by
      rcases Bool.or_eq_true_iff.mp hlow with hempty | hany
      · refine ⟨p, fun y hy => h.not_coarse ?_, h.order.irrefl p⟩
        have hnone := List.filter_eq_nil_iff.mp (List.isEmpty_iff.mp hempty) y hy
        simpa using hnone
      · cases floor with
        | none => cases hany
        | some y => exact ⟨y, hfloor y rfl, h.not_coarse (by simpa using hany)⟩
    obtain ⟨y, hy, hyp⟩ := hbound
    refine Run.Sorts.append ⟨rfl, .of_sortsBy (.of_ordered (ordered_same h hy hyp))⟩
      (ih (by simp)) (sortsBy_same h hy hyp)
  | case5 limit floor x xs _ p low hlow ih₁ ih₂ =>
    refine Run.Sorts.append (ih₁ ?_) (ih₂ ?_) fun hl hr => sortsBy_low h hl hr
    · intro y hy x' hx'
      exact hfloor y hy x' (List.mem_of_mem_filter hx')
    · intro y hy x' hx'
      obtain rfl := Option.mem_some.mp hy
      exact h.not_coarse (by simpa using List.of_mem_filter hx')

end Parting

theorem sortsAll_sortLong (h : Refines before coarse) :
    SortsAll before coarse (sortLong before) := by
  intro xs
  refine sortsAll_sortRuns h (fun ys => ?_) _ xs
  exact sorts_sortParts h _ none ys (by simp)

end HostLookup.Sorting
