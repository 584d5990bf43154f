/-!
Numerals: a text of digits stands for a number below a bound. Signs are not part of a numeral, and
leading zeros are allowed unless a rule of the format using it says otherwise.
-/
set_option autoImplicit false

namespace HostLookup.Text

/-- The value of a digit in bases up to sixteen; letters may have either case. -/
def digitValue (c : Char) : Option Nat :=
  let n := c.toNat
  if 48 ≤ n ∧ n ≤ 57 then some (n - 48)
  else if 97 ≤ n ∧ n ≤ 102 then some (n - 87)
  else if 65 ≤ n ∧ n ≤ 70 then some (n - 55)
  else none

/-- The number whose digits follow those of `acc`. -/
def ofDigits (base : Nat) : Nat → List Char → Option Nat
  | acc, [] => some acc
  | acc, c :: cs =>
    match digitValue c with
    | some d => if d < base then ofDigits base (acc * base + d) cs else none
    | none => none

/-- The number below `bound` that a nonempty text of digits stands for. -/
def numeral (base bound : Nat) (cs : List Char) : Option Nat :=
  if cs.isEmpty then none
  else (ofDigits base 0 cs).filter fun n => decide (n < bound)

/-- Decimal numerals below `bound` that may follow a plus sign. -/
def signedNumeral (bound : Nat) : List Char → Option Nat
  | '+' :: cs => numeral 10 bound cs
  | cs => numeral 10 bound cs

/-- The decimal digits of a number, without leading zeros. -/
def decimal (n : Nat) : List Char := Nat.toDigits 10 n

/-- The digits of a number to the base sixteen, in lower case and without leading zeros. -/
def hexadecimal (n : Nat) : List Char := Nat.toDigits 16 n

theorem ofDigits_append (base acc : Nat) (left right : List Char) :
    ofDigits base acc (left ++ right) =
      (ofDigits base acc left).bind fun n => ofDigits base n right := by
  induction left generalizing acc with
  | nil => rfl
  | cons c cs ih =>
    rw [List.cons_append, ofDigits, ofDigits]
    cases digitValue c with
    | none => rfl
    | some d =>
      by_cases h : d < base
      · simp [h, ih]
      · simp [h]

end HostLookup.Text
