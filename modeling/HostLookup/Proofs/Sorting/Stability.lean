import HostLookup.Proofs.Sorting.Runs

/-!
Sorting is stable. Where `before` follows an order, the result is in order by it, and where it is an
order itself, elements that are alike stay as they stood. Every `before` follows the order in which
all elements are alike, so that sorting only rearranges. A sort that gives up has seen more elements
than are sorted by insertion, and `before` is no order of them.
-/
set_option autoImplicit false

namespace HostLookup.Sorting

variable {α : Type} {before coarse : α → α → Bool} {xs ys : List α}

theorem sortsBy_stableSort (h : Refines before coarse) (xs : List α) :
    SortsBy before coarse xs (stableSort before xs) := by
  unfold stableSort
  split
  · exact sortsBy_insertionSort h xs
  · obtain ⟨hsorted, hrun⟩ := sortsAll_sortLong h xs
    exact hrun.sortsBy hsorted

theorem stableSort_perm (before : α → α → Bool) (xs : List α) :
    (stableSort before xs).Perm xs := by
  have hall : Refines before fun _ _ => false := ⟨⟨nofun, fun _ _ => rfl⟩, nofun, fun _ => rfl⟩
  exact (sortsBy_stableSort hall xs).perm

theorem isStableSort_stableSort (h : IsOrder before) (xs : List α) :
    IsStableSort before xs (stableSort before xs) :=
  h.isStableSort (sortsBy_stableSort h.refines xs)

theorem stableSort?_of_isOrder (h : IsOrder before) (xs : List α) :
    stableSort? before xs = some (stableSort before xs) := by
  rw [stableSort?, (sortsAll_sortLong h.refines xs).2.meets h, Bool.or_true, if_pos rfl]

theorem stableSort?_eq_some (h : stableSort? before xs = some ys) : ys = stableSort before xs := by
  rw [stableSort?] at h
  split at h
  · exact (Option.some.inj h).symm
  · cases h

theorem not_isOrder_of_stableSort?_eq_none (h : stableSort? before xs = none) :
    insertionLimit < xs.length ∧ ¬ IsOrder (pullback before (Subtype.val : {x // x ∈ xs} → α)) := by
  constructor
  · by_contra hle
    rw [stableSort?, if_pos (by simp [Nat.not_lt.mp hle])] at h
    cases h
  · intro horder
    have hmap := stableSort?_map before Subtype.val xs.attach
    rw [List.attach_map_subtype_val, h, stableSort?_of_isOrder horder] at hmap
    cases hmap

end HostLookup.Sorting
