import HostLookup.Context.Basic

/-!
Runs of operations on two contexts: time passes, deadlines and tokens are replaced, one context is
kept while the other goes on, and tokens are cancelled.
-/
set_option autoImplicit false

namespace HostLookup

namespace Derivation

inductive Step where
  /-- Gives the current context a deadline. -/
  | deadline (time : Nat)
  /-- Gives the current context a deadline that far from now. -/
  | timeout (duration : Nat)
  /-- Lets time pass. -/
  | sleep (duration : Nat)
  /-- Gives the current context a token of its own. -/
  | newToken
  /-- Gives the current context a child of its token. -/
  | childToken
  /-- Keeps a copy of the current context. -/
  | save
  /-- Exchanges the current and the kept context. -/
  | swap
  /-- Cancels the token of the current context. -/
  | cancel
  deriving DecidableEq, Repr

structure State where
  now : Nat
  current : Context
  saved : Context
  cancellations : List Cancellation
  /-- An identity that no token has yet. -/
  fresh : Nat
  deriving DecidableEq, Repr

namespace State

/-- Two copies of one context without deadline, at time zero. -/
def initial : State := ⟨0, .ofToken (.root 0), .ofToken (.root 0), [], 1⟩

/-- Fails only if a deadline would lie beyond the clock's range. -/
def step? (s : State) : Step → Option State
  | .deadline time => some { s with current := s.current.withDeadline time }
  | .timeout duration =>
    (s.current.withTimeout? s.now duration).map fun cx => { s with current := cx }
  | .sleep duration => some { s with now := s.now + duration }
  | .newToken =>
    some { s with current := s.current.withToken (.root s.fresh), fresh := s.fresh + 1 }
  | .childToken =>
    some { s with
      current := s.current.withToken (s.current.token.child s.fresh), fresh := s.fresh + 1 }
  | .save => some { s with saved := s.current }
  | .swap => some { s with current := s.saved, saved := s.current }
  | .cancel =>
    some { s with cancellations := s.cancellations ++ [⟨s.current.token.id, s.now⟩] }

/-- The states after each step. -/
def run? (s : State) : List Step → Option (List State)
  | [] => some []
  | step :: steps => do
    let t ← s.step? step
    let ts ← t.run? steps
    return t :: ts

/-- What can be seen of a context in a state. -/
def isCancelled (s : State) (cx : Context) : Bool :=
  cx.token.isCancelled s.cancellations s.now

def isDone (s : State) (cx : Context) : Bool := cx.isDone s.cancellations s.now

end State

end Derivation

end HostLookup
