import HostLookup.Activity.Guard
import HostLookup.Resolver.Literal

/-!
Sessions: calls to one resolver, one after the other. Calls share a context unless they bring their
own, time passes between them, and a lookup that takes too long is given up.
-/
set_option autoImplicit false

namespace HostLookup

/-- How the context of a lookup is made; durations count from when it is made. -/
structure ContextPlan where
  timeouts : List Nat
  cancelled : Bool
  cancelAfter : Option Nat
  deriving Repr

namespace ContextPlan

/-- Neither a deadline nor a cancellation. -/
def unbounded : ContextPlan := ⟨[], false, none⟩

/-- When the context gets cancelled. -/
def cancelTimes (p : ContextPlan) (now : Nat) : List Nat :=
  (if p.cancelled then [now] else []) ++ (p.cancelAfter.map fun d => now + d).toList

/-- The context at a fresh token, and the cancellations that come with it. -/
def create? (p : ContextPlan) (now id : Nat) : Option (Context × List Cancellation) := do
  let cx ← p.timeouts.foldlM (fun cx d => Context.withTimeout? cx now d) (.ofToken (.root id))
  return (cx, (p.cancelTimes now).map fun t => ⟨id, t⟩)

end ContextPlan

/-- One call. -/
inductive Call where
  /-- Looks up a host, in a context of its own if there is a plan for one. -/
  | lookup (network host : String) (plan : Option ContextPlan)
  /-- Lets time pass. -/
  | sleep (duration : Nat)
  /-- Cancels the shared context. -/
  | cancel
  deriving Repr

/-- What a call comes to. -/
inductive CallResult where
  | answered (report : Report Answer)
  | slept (duration : Nat)
  | cancelled

/-- The state between calls. -/
structure Session where
  world : World
  shared : Context
  /-- An identity that no token has yet. -/
  fresh : Nat
  /-- How long a lookup is waited for. -/
  patience : Nat

namespace Session

/-- A session whose shared context is made first; fails if the clock does not go far enough. -/
def start? (plan : ContextPlan) (patience : Nat) : Option Session :=
  (plan.create? 0 0).map fun (cx, cs) =>
    ⟨{ World.initial with cancellations := cs }, cx, 1, patience⟩

/-- Runs a lookup in a context. -/
def lookup (s : Session) (r : Resolver) (cx : Context) (network host : String) :
    Report Answer × Session :=
  let report := (r cx network host).within s.patience s.world
  (report, { s with world := s.world.after report.elapsed report.events })

def call (s : Session) (r : Resolver) : Call → CallResult × Session
  | .lookup network host none =>
    let (report, t) := s.lookup r s.shared network host
    (.answered report, t)
  | .lookup network host (some plan) =>
    match plan.create? s.world.now s.fresh with
    | none => (.answered ⟨.overflow, 0, []⟩, s)
    | some (cx, cs) =>
      let world := { s.world with cancellations := s.world.cancellations ++ cs }
      let (report, t) := { s with world, fresh := s.fresh + 1 }.lookup r cx network host
      (.answered report, t)
  | .sleep duration => (.slept duration, { s with world := s.world.after duration [] })
  | .cancel =>
    let event : Event := ⟨s.world.now, .cancelled s.shared.token.id⟩
    (.cancelled, { s with world := s.world.after 0 [event] })

def run (s : Session) (r : Resolver) : List Call → List CallResult
  | [] => []
  | c :: cs =>
    let (result, t) := s.call r c
    result :: t.run r cs

end Session

end HostLookup
