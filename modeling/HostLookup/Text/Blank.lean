import HostLookup.Text.Split

/-!
White space as Unicode's property `White_Space` has it, and the words of a line: the longest runs
of characters without white space.
-/
set_option autoImplicit false

namespace HostLookup.Text

/-- The code points with the property `White_Space`. -/
def isBlank (c : Char) : Bool :=
  let n := c.toNat
  (9 ≤ n && n ≤ 13) || n == 0x20 || n == 0x85 || n == 0xA0 || n == 0x1680 ||
  (0x2000 ≤ n && n ≤ 0x200A) || n == 0x2028 || n == 0x2029 || n == 0x202F || n == 0x205F ||
  n == 0x3000

/-- A text without the white space at its end. -/
def trimEnd (cs : List Char) : List Char :=
  (cs.reverse.dropWhile isBlank).reverse

/-- The words of a text, separated by any amount of white space. -/
def words (cs : List Char) : List (List Char) :=
  (split isBlank cs).filter fun w => !w.isEmpty

@[simp] theorem words_nil : words [] = [] := rfl

/-- White space separates words and belongs to none. -/
theorem words_append_blank {c : Char} (hc : isBlank c = true) (left right : List Char) :
    words (left ++ c :: right) = words left ++ words right := by
  simp [words, split_append_cut hc]

theorem words_cons_blank {c : Char} (h : isBlank c = true) (cs : List Char) :
    words (c :: cs) = words cs := by
  simpa using words_append_blank h [] cs

end HostLookup.Text
