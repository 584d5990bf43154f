/-!
Cutting a text at every character of a class. The pieces and the cuts together are the text, and
no piece contains a character of the class.
-/
set_option autoImplicit false

namespace HostLookup.Text

variable {α : Type}

/-- The pieces of `cs` between the characters of class `cut`; there is always at least one. -/
def split (cut : α → Bool) : List α → List (List α)
  | [] => [[]]
  | c :: cs =>
    if cut c then [] :: split cut cs
    else
      match split cut cs with
      | [] => [[c]]
      | piece :: pieces => (c :: piece) :: pieces

/-- The part before the first character of class `cut`, and the part after it, if there is one. -/
def splitFirst (cut : α → Bool) : List α → List α × Option (List α)
  | [] => ([], none)
  | c :: cs =>
    if cut c then ([], some cs)
    else ((c :: (splitFirst cut cs).1), (splitFirst cut cs).2)

@[simp] theorem split_nil (cut : α → Bool) : split cut [] = [[]] := rfl

theorem split_ne_nil (cut : α → Bool) (cs : List α) : split cut cs ≠ [] := by
  cases cs with
  | nil => simp
  | cons c cs =>
    rw [split]
    split
    · simp
    · split <;> simp

theorem split_cons_cut {cut : α → Bool} {c : α} (h : cut c = true) (cs : List α) :
    split cut (c :: cs) = [] :: split cut cs := by
  simp [split, h]

/-- A text without cuts is its own only piece. -/
theorem split_eq_singleton {cut : α → Bool} {cs : List α} (h : ∀ c ∈ cs, cut c = false) :
    split cut cs = [cs] := by
  induction cs with
  | nil => rfl
  | cons c cs ih =>
    rw [split, ih (fun d hd => h d (List.mem_cons_of_mem c hd))]
    simp [h c List.mem_cons_self]

/-- Cutting at one more place cuts the two sides on their own. -/
theorem split_append_cut {cut : α → Bool} {c : α} (hc : cut c = true) (left right : List α) :
    split cut (left ++ c :: right) = split cut left ++ split cut right := by
  induction left with
  | nil => simp [split_cons_cut hc]
  | cons d left ih =>
    rw [List.cons_append, split, split, ih]
    split
    · simp
    · cases h : split cut left with
      | nil => exact absurd h (split_ne_nil cut left)
      | cons piece pieces => simp

end HostLookup.Text
