/-!
Time is counted in milliseconds from the start. An instant has to lie within the clock's range;
adding a duration to an instant fails if the sum does not.
-/
set_option autoImplicit false

namespace HostLookup

namespace Clock

/-- The first millisecond beyond the clock's range: seconds are kept in 63 bits. -/
def range : Nat := 9223372036854775808 * 1000

/-- The instant that a duration after `now` is reached. -/
def after? (now duration : Nat) : Option Nat :=
  if now + duration < range then some (now + duration) else none

/-- The earlier of two instants, either of which may never come. -/
def earlier : Option Nat → Option Nat → Option Nat
  | none, t => t
  | some s, none => some s
  | some s, some t => some (min s t)

@[simp] theorem earlier_none_left (t : Option Nat) : earlier none t = t := rfl

@[simp] theorem earlier_none_right (s : Option Nat) : earlier s none = s := by
  cases s <;> rfl

theorem earlier_comm (s t : Option Nat) : earlier s t = earlier t s := by
  cases s <;> cases t <;> simp [earlier, Nat.min_comm]

theorem earlier_assoc (s t u : Option Nat) :
    earlier (earlier s t) u = earlier s (earlier t u) := by
  cases s <;> cases t <;> cases u <;> simp [earlier, Nat.min_assoc]

end Clock

end HostLookup
