/-!
Merging two runs. `before y x` says that `y` has to come before `x`; elements of the right run come
first only if they have to. Merging from the front and from the back make the same decisions when
`before` is an order, but not otherwise, so it matters here which one is used.
-/
set_option autoImplicit false

namespace HostLookup.Sorting

variable {α : Type}

/-- Merges `x :: xs` with another run, given how `xs` is merged. -/
def weave (before : α → α → Bool) (x : α) (xs : List α) (mergeTail : List α → List α) :
    List α → List α
  | [] => x :: xs
  | y :: ys =>
    if before y x then y :: weave before x xs mergeTail ys else x :: mergeTail (y :: ys)

/-- Merges two runs from the front. -/
def merge (before : α → α → Bool) : List α → List α → List α
  | [], ys => ys
  | x :: xs, ys => weave before x xs (merge before xs) ys

/-- Merges two runs from the back. -/
def mergeBack (before : α → α → Bool) (xs ys : List α) : List α :=
  (merge (fun x y => before y x) ys.reverse xs.reverse).reverse

/-- Merges two runs from the end of the longer one's partner, so that the shorter one is set
aside. -/
def mergeRuns (before : α → α → Bool) (xs ys : List α) : List α :=
  if xs.length ≤ ys.length then merge before xs ys else mergeBack before xs ys

/-- How many of the first `n` elements of the merged runs come from the left one. -/
def countLeft (before : α → α → Bool) : Nat → List α → List α → Nat
  | 0, _, _ => 0
  | _, [], _ => 0
  | n + 1, _ :: _, [] => n + 1
  | n + 1, x :: xs, y :: ys =>
    if before y x then countLeft before n (x :: xs) ys
    else countLeft before n xs (y :: ys) + 1

/-- Whether the ends meet when two halves are merged from both: what comes first and what comes last
are then all elements but at most one. -/
def endsMeet (before : α → α → Bool) (xs ys : List α) : Bool :=
  let half := xs.length
  let front := countLeft before half xs ys
  let back := half - countLeft (fun x y => before y x) half ys.reverse xs.reverse
  front + back = half || xs.length ≠ ys.length && front + back + 1 = half

/-- Merges two halves from both ends; the right one may have one element more. Where the ends do
not meet, `before` is no order and the front decides alone. -/
def mergeHalves (before : α → α → Bool) (xs ys : List α) : List α :=
  let half := xs.length
  let front := countLeft before half xs ys
  let back := half - countLeft (fun x y => before y x) half ys.reverse xs.reverse
  let ends (middle : List α) : List α :=
    (merge before xs ys).take half ++ middle ++ (mergeBack before xs ys).drop ys.length
  if xs.length = ys.length then
    if front + back = half then ends [] else merge before xs ys
  else if front + back = half then ends (ys.drop (half - front) |>.take 1)
  else if front + back + 1 = half then ends (xs.drop front |>.take 1)
  else merge before xs ys

@[simp] theorem merge_nil_left (before : α → α → Bool) (ys : List α) :
    merge before [] ys = ys := rfl

@[simp] theorem merge_nil_right (before : α → α → Bool) (xs : List α) :
    merge before xs [] = xs := by
  cases xs <;> rfl

theorem merge_cons_cons (before : α → α → Bool) (x y : α) (xs ys : List α) :
    merge before (x :: xs) (y :: ys) =
      if before y x then y :: merge before (x :: xs) ys else x :: merge before xs (y :: ys) :=
  rfl

theorem merge_perm (before : α → α → Bool) (xs ys : List α) :
    (merge before xs ys).Perm (xs ++ ys) := by
  induction xs generalizing ys with
  | nil => simp
  | cons x xs ihx =>
    induction ys with
    | nil => simp
    | cons y ys ihy =>
      rw [merge_cons_cons]
      split
      · exact (ihy.cons y).trans (List.perm_middle : (x :: xs ++ y :: ys).Perm _).symm
      · exact (ihx (y :: ys)).cons x

@[simp] theorem length_merge (before : α → α → Bool) (xs ys : List α) :
    (merge before xs ys).length = xs.length + ys.length := by
  simpa using (merge_perm before xs ys).length_eq

theorem mergeBack_perm (before : α → α → Bool) (xs ys : List α) :
    (mergeBack before xs ys).Perm (xs ++ ys) := by
  refine (List.reverse_perm _).trans ((merge_perm _ _ _).trans ?_)
  exact ((ys.reverse_perm.append xs.reverse_perm)).trans List.perm_append_comm

end HostLookup.Sorting
