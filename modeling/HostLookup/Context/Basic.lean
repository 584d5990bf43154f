import HostLookup.Context.Token

/-!
The context of a lookup: a deadline that can only get earlier, and a cancellation token.
-/
set_option autoImplicit false

namespace HostLookup

structure Context where
  deadline : Option Nat
  token : Token
  deriving DecidableEq, Repr

namespace Context

/-- A context without deadline. -/
def ofToken (t : Token) : Context := ⟨none, t⟩

/-- Of two deadlines the earlier one holds. -/
def withDeadline (cx : Context) (deadline : Nat) : Context :=
  { cx with deadline := Clock.earlier cx.deadline (some deadline) }

/-- Ends the context a duration after `now`, if the clock goes that far. -/
def withTimeout? (cx : Context) (now timeout : Nat) : Option Context :=
  (Clock.after? now timeout).map cx.withDeadline

def withToken (cx : Context) (t : Token) : Context := { cx with token := t }

/-- The deadline of something that may take `timeout` from `now`; zero stands for any time. -/
def effectiveDeadline? (cx : Context) (now timeout : Nat) : Option (Option Nat) :=
  if timeout = 0 then some cx.deadline
  else (Clock.after? now timeout).map fun t => Clock.earlier cx.deadline (some t)

/-- When work with its own deadline is cut short: once the token is cancelled or the deadline is
reached. -/
def cutoff (cx : Context) (cs : List Cancellation) (deadline : Option Nat) : Option Nat :=
  Clock.earlier (cx.token.cancelTime cs) deadline

/-- The context is cancelled or expired. -/
def isDone (cx : Context) (cs : List Cancellation) (now : Nat) : Bool :=
  match cx.cutoff cs cx.deadline with
  | none => false
  | some t => t ≤ now

end Context

end HostLookup
