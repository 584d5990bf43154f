import HostLookup.Sorting.Merge

/-!
A stable sort that compares as little as it can. Short lists are sorted by insertion. Longer ones
are taken apart into runs: a natural run if it is long enough, else a block sorted on its own or, if
there are more than two blocks, a part that is left as it is. Runs are joined as in a balanced tree.
Those that are sorted are merged; the others are only put together, and sorted by partition once
that is needed. Which pairs are compared is fixed, since the result depends on it when `before` is
no order. Whether the ends met in all blocks is kept along with the result.
-/
set_option autoImplicit false

namespace HostLookup.Sorting

variable {α : Type}

/-- Puts an element into a sorted list, searching from its end; the list is held backwards. -/
def insertBack (before : α → α → Bool) (x : α) : List α → List α
  | [] => [x]
  | y :: ys => if before x y then y :: insertBack before x ys else x :: y :: ys

/-- Inserts elements one by one into a sorted list. -/
def insertAll (before : α → α → Bool) (sorted xs : List α) : List α :=
  (xs.foldl (fun ys x => insertBack before x ys) sorted.reverse).reverse

def insertionSort (before : α → α → Bool) (xs : List α) : List α := insertAll before [] xs

/-- Sorts four elements with five comparisons. -/
def sortFour (before : α → α → Bool) (v₀ v₁ v₂ v₃ : α) : List α :=
  let (a, b) := if before v₁ v₀ then (v₁, v₀) else (v₀, v₁)
  let (c, d) := if before v₃ v₂ then (v₃, v₂) else (v₂, v₃)
  let firstRight := before c a
  let lastLeft := before d b
  let first := if firstRight then c else a
  let last := if lastLeft then b else d
  let left := if firstRight then a else if lastLeft then c else b
  let right := if lastLeft then d else if firstRight then b else c
  if before right left then [first, right, left, last] else [first, left, right, last]

/-- Sorts half of a block; in large blocks the first four elements are sorted at once. -/
def sortHalf (before : α → α → Bool) (large : Bool) : List α → List α
  | v₀ :: v₁ :: v₂ :: v₃ :: rest =>
    if large then insertAll before (sortFour before v₀ v₁ v₂ v₃) rest
    else insertionSort before (v₀ :: v₁ :: v₂ :: v₃ :: rest)
  | xs => insertionSort before xs

/-- Sorts a block: its halves on their own, which are then merged from both ends. -/
def sortBlock (before : α → α → Bool) (xs : List α) : List α :=
  let half := xs.length / 2
  let large := decide (8 ≤ xs.length)
  mergeHalves before (sortHalf before large (xs.take half))
    (sortHalf before large (xs.drop half))

/-- The longest part at the front in which each element follows on the one before it. -/
def spanRun (follows : α → α → Bool) : α → List α → List α × List α
  | _, [] => ([], [])
  | last, y :: ys =>
    if follows last y then
      let (run, rest) := spanRun follows y ys
      (y :: run, rest)
    else ([], y :: ys)

/-- The run at the front of a list, and the rest; a strictly descending run is turned round. -/
def naturalRun (before : α → α → Bool) : List α → List α × List α
  | [] => ([], [])
  | [x] => ([x], [])
  | x :: y :: xs =>
    if before y x then
      let (run, rest) := spanRun (fun last z => before z last) y xs
      ((x :: y :: run).reverse, rest)
    else
      let (run, rest) := spanRun (fun last z => !before z last) y xs
      (x :: y :: run, rest)

/-- The size of a block. -/
def blockSize : Nat := 32

/-- Whether the ends meet when the halves of a block are merged. -/
def blockMeets (before : α → α → Bool) (xs : List α) : Bool :=
  let half := xs.length / 2
  let large := decide (8 ≤ xs.length)
  endsMeet before (sortHalf before large (xs.take half)) (sortHalf before large (xs.drop half))

/-- A part of a list, in order unless it is still to be sorted, and whether the ends met in all blocks
that were sorted for it. -/
structure Run (α : Type) where
  items : List α
  isSorted : Bool
  meets : Bool

/-- Puts a run behind another one. -/
def Run.append (left right : Run α) : Run α :=
  ⟨left.items ++ right.items, left.isSorted && right.isSorted, left.meets && right.meets⟩

/-- A block as a run. -/
def Run.ofBlock (before : α → α → Bool) (xs : List α) : Run α :=
  ⟨sortBlock before xs, true, blockMeets before xs⟩

/-- The first run: the natural run if it has at least `goal` elements, else a block, or as many
elements as they stand. -/
def nextRun (before : α → α → Bool) (eager : Bool) (goal : Nat) (xs : List α) : Run α × List α :=
  let natural := naturalRun before xs
  if goal ≤ natural.1.length then (⟨natural.1, true, true⟩, natural.2)
  else if eager then (.ofBlock before (xs.take blockSize), xs.drop blockSize)
  else (⟨xs.take goal, false, true⟩, xs.drop goal)

theorem spanRun_append (follows : α → α → Bool) (last : α) (xs : List α) :
    (spanRun follows last xs).1 ++ (spanRun follows last xs).2 = xs := by
  induction xs generalizing last with
  | nil => rfl
  | cons y ys ih =>
    rw [spanRun]
    split
    · simp [ih y]
    · rfl

theorem length_naturalRun_lt (before : α → α → Bool) {xs : List α} (h : xs ≠ []) :
    (naturalRun before xs).2.length < xs.length := by
  match xs, h with
  | [_], _ => simp [naturalRun]
  | x :: y :: xs, _ =>
    rw [naturalRun]
    split
    · have := congrArg List.length (spanRun_append (fun last z => before z last) y xs)
      simp only [List.length_append, List.length_cons] at this ⊢
      omega
    · have := congrArg List.length (spanRun_append (fun last z => !before z last) y xs)
      simp only [List.length_append, List.length_cons] at this ⊢
      omega

theorem length_nextRun_lt (before : α → α → Bool) (eager : Bool) (goal : Nat) {xs : List α}
    (h : xs ≠ []) : (nextRun before eager goal xs).2.length < xs.length := by
  have hpos := List.length_pos_iff.2 h
  rw [nextRun]
  split
  · exact length_naturalRun_lt before h
  · split
    · simp only [List.length_drop, blockSize]
      omega
    · simp only [List.length_drop]
      omega

/-- A run in order. -/
def Run.finish (sort : List α → Run α) (run : Run α) : Run α :=
  if run.isSorted then run else sort run.items

/-- Joins two neighbouring runs. They are merged if one of them is sorted, or if both together do not
fit into the space set aside. -/
def Run.join (before : α → α → Bool) (sort : List α → Run α) (space : Nat) (left right : Run α) :
    Run α :=
  if left.isSorted || right.isSorted || space < left.items.length + right.items.length then
    let left := left.finish sort
    let right := right.finish sort
    ⟨mergeRuns before left.items right.items, true, left.meets && right.meets⟩
  else left.append right

/-- How deep runs that meet are joined in a tree over `n` elements, given where the left one begins,
where they meet and where the right one ends. -/
def joinDepth (n first middle last : Nat) : Nat :=
  let scale := ((1 <<< 62) + n - 1) / n
  63 - ((scale * (first + middle)) ^^^ (scale * (middle + last))).log2

/-- Joins a run with those before it that are to be joined at least as deep. -/
def joinDeeper (join : Run α → Run α → Run α) (depth : Nat) :
    List (Nat × Run α) → Run α → List (Nat × Run α) × Run α
  | [], run => ([], run)
  | (d, left) :: runs, run =>
    if depth ≤ d then joinDeeper join depth runs (join left run) else ((d, left) :: runs, run)

/-- Joins the runs of a list of `n` elements, given those before, the last one and what is left. -/
def joinRuns (before : α → α → Bool) (join : Run α → Run α → Run α) (eager : Bool) (goal n : Nat)
    (runs : List (Nat × Run α)) (run : Run α) (rest : List α) : Run α :=
  if h : rest = [] then (joinDeeper join 0 runs run).2
  else
    have := length_nextRun_lt before eager goal h
    let next := nextRun before eager goal rest
    let last := n - rest.length
    let depth := joinDepth n (last - run.items.length) last (last + next.1.items.length)
    let joined := joinDeeper join depth runs run
    joinRuns before join eager goal n ((depth, joined.2) :: joined.1) next.1 next.2
termination_by rest.length

/-- How long a natural run has to be in a list of `n` elements. -/
def runGoal (n : Nat) : Nat :=
  if n ≤ 4096 then min (n - n / 2) 64
  else
    let shift := (n.log2 + 1) / 2
    ((1 <<< shift) + (n >>> shift)) / 2

/-- The space set aside for a list of `n` elements. -/
def spaceFor (n : Nat) : Nat := max (n - n / 2) (min n 200000)

/-- Sorts by joining runs. Parts that were left as they are are sorted by `sort`. -/
def sortRuns (before : α → α → Bool) (sort : List α → Run α) (eager : Bool) (xs : List α) : Run α :=
  let n := xs.length
  let join := Run.join before sort (spaceFor n)
  let first := nextRun before eager (runGoal n) xs
  (joinRuns before join eager (runGoal n) n [] first.1 first.2).finish sort

/-- The middle one of three elements. -/
def median (before : α → α → Bool) (x y z : α) : α :=
  let isFirst := before x y
  if isFirst == before x z then
    if before y z == isFirst then y else z
  else x

/-- The median of three elements from the first half, the middle and the end of `n` elements from
position `i` on; in many elements, of three such medians. -/
def nearMedian (before : α → α → Bool) (item : Nat → α) (n i : Nat) : α :=
  if n < 8 then item i
  else
    median before (nearMedian before item (n / 8) i)
      (nearMedian before item (n / 8) (i + 4 * (n / 8)))
      (nearMedian before item (n / 8) (i + 7 * (n / 8)))
termination_by n

/-- Sorts a block, or a longer list by joining blocks. -/
def sortBlocks (before : α → α → Bool) (xs : List α) : Run α :=
  if xs.length ≤ blockSize then .ofBlock before xs
  else sortRuns before (.ofBlock before) true xs

/-- The element by which a list is parted; `x` stands in for those beyond its end. -/
def pivot (before : α → α → Bool) (x : α) (xs : List α) : α :=
  nearMedian before (xs.getD · x) xs.length 0

/-- Sorts by partition, which is tried a limited number of times. None of the elements comes before
the one given as their floor. -/
def sortParts (before : α → α → Bool) : Nat → Option α → List α → Run α
  | 0, _, xs => sortBlocks before xs
  | _ + 1, _, [] => .ofBlock before []
  | limit + 1, floor, x :: xs =>
    if (x :: xs).length ≤ blockSize then .ofBlock before (x :: xs)
    else
      let p := pivot before x (x :: xs)
      let low := (x :: xs).filter (before · p)
      if low.isEmpty || floor.any (fun y => !before y p) then
        Run.append ⟨(x :: xs).filter fun y => !before p y, true, true⟩
          (sortParts before limit none ((x :: xs).filter (before p ·)))
      else
        Run.append (sortParts before limit floor low)
          (sortParts before limit (some p) ((x :: xs).filter fun y => !before y p))

/-- Sorts a list that is too long for insertion. -/
def sortLong (before : α → α → Bool) (xs : List α) : Run α :=
  sortRuns before (fun ys => sortParts before (2 * ys.length.log2) none ys)
    (decide (xs.length ≤ 2 * blockSize)) xs

/-- The longest list that is sorted by insertion. -/
def insertionLimit : Nat := 20

/-- Sorts stably: no element comes after one that it has to come before. -/
def stableSort (before : α → α → Bool) (xs : List α) : List α :=
  if xs.length ≤ insertionLimit then insertionSort before xs else (sortLong before xs).items

/-- Sorts stably, but gives up where the ends of a block do not meet: `before` is no order then. -/
def stableSort? (before : α → α → Bool) (xs : List α) : Option (List α) :=
  if xs.length ≤ insertionLimit || (sortLong before xs).meets then some (stableSort before xs)
  else none

end HostLookup.Sorting
