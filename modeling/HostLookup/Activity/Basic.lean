import HostLookup.Address.Basic
import HostLookup.Config.Protocol
import HostLookup.Context.Basic
import HostLookup.Message.Basic

/-!
Activities take time and leave traces. Run in a world, an activity reports how it ended, how long
it took, and what was done and when. Activities compose in sequence; one that does not return is the
last.
-/
set_option autoImplicit false

namespace HostLookup

/-- Something that others can notice. -/
inductive Deed where
  /-- A query for records of a type was begun. -/
  | queried (server : Endpoint) (type : RecordType)
  /-- A connection is being made. -/
  | dialed (transport : Transport) (server : Endpoint)
  /-- Octets of a handshake can be written to the connection made last. -/
  | shook
  /-- Octets were written to the connection made last. -/
  | sent (octets : Octets)
  /-- A server's reply to a request was received. -/
  | replied (server : Endpoint) (reply : Message)
  /-- The source address for a destination was asked for. -/
  | probed (destination : Address)
  /-- A resolver was asked by another one. -/
  | asked (network host : String)
  /-- A token was cancelled. -/
  | cancelled (token : Nat)
  deriving DecidableEq, Repr

/-- A deed and its time. -/
structure Event where
  time : Nat
  deed : Deed
  deriving DecidableEq, Repr

/-- How an activity ends. -/
inductive Ending (α : Type) where
  | returned (value : α)
  /-- It waits for something that never happens. -/
  | stalled
  /-- A deadline lies beyond the clock's range. -/
  | overflow
  /-- What was to be sorted is not compared as in an order. -/
  | disorder
  deriving Repr

/-- The account of an activity. -/
structure Report (α : Type) where
  ending : Ending α
  elapsed : Nat
  events : List Event
  deriving Repr

/-- What an activity can depend on: the time, the cancellations, and the connections made so far. -/
structure World where
  now : Nat
  cancellations : List Cancellation
  dialed : List Endpoint
  deriving Repr

namespace World

/-- The world before anything has happened. -/
def initial : World := ⟨0, [], []⟩

def dialedBy (events : List Event) : List Endpoint :=
  events.filterMap fun e =>
    match e.deed with
    | .dialed _ server => some server
    | _ => none

def cancelledBy (events : List Event) : List Cancellation :=
  events.filterMap fun e =>
    match e.deed with
    | .cancelled id => some ⟨id, e.time⟩
    | _ => none

/-- The world after some time in which the events happened. -/
def after (w : World) (elapsed : Nat) (events : List Event) : World where
  now := w.now + elapsed
  cancellations := w.cancellations ++ cancelledBy events
  dialed := w.dialed ++ dialedBy events

@[simp] theorem after_zero_nil (w : World) : w.after 0 [] = w := by
  simp [after, cancelledBy, dialedBy]

theorem after_after (w : World) (m n : Nat) (es fs : List Event) :
    (w.after m es).after n fs = w.after (m + n) (es ++ fs) := by
  simp [after, cancelledBy, dialedBy, Nat.add_assoc]

end World

/-- Something that runs in a world. -/
def Activity (α : Type) : Type := World → Report α

namespace Activity

variable {α β γ : Type}

def pure (value : α) : Activity α := fun _ => ⟨.returned value, 0, []⟩

def bind (first : Activity α) (next : α → Activity β) : Activity β := fun w =>
  let r := first w
  match r.ending with
  | .returned value =>
    let s := next value (w.after r.elapsed r.events)
    ⟨s.ending, r.elapsed + s.elapsed, r.events ++ s.events⟩
  | .stalled => ⟨.stalled, r.elapsed, r.events⟩
  | .overflow => ⟨.overflow, r.elapsed, r.events⟩
  | .disorder => ⟨.disorder, r.elapsed, r.events⟩

instance : Monad Activity where
  pure := pure
  bind := bind

instance : LawfulMonad Activity := LawfulMonad.mk' Activity
  (by
    intro α x
    funext w
    change bind x pure w = x w
    cases h : x w with
    | mk ending elapsed events => cases ending <;> simp [bind, pure, h])
  (by
    intro α β a f
    funext w
    change bind (pure a) f w = f a w
    simp [bind, pure])
  (by
    intro α β γ x f g
    funext w
    change bind (bind x f) g w = bind x (fun a => bind (f a) g) w
    cases hx : x w with
    | mk ending elapsed events =>
      cases ending with
      | returned a =>
        cases hf : f a (w.after elapsed events) with
        | mk ending' elapsed' events' =>
          cases ending' <;> simp [bind, hx, hf, World.after_after, Nat.add_assoc]
      | _ => simp [bind, hx])

/-- Lets time pass. -/
def sleep (duration : Nat) : Activity Unit := fun _ => ⟨.returned (), duration, []⟩

/-- Waits for something that never happens. -/
def stall : Activity α := fun _ => ⟨.stalled, 0, []⟩

/-- Does something that takes no time. -/
def record (deed : Deed) : Activity Unit := fun w => ⟨.returned (), 0, [⟨w.now, deed⟩]⟩

/-- The state of the world. -/
def world : Activity World := fun w => ⟨.returned w, 0, []⟩

/-- Comes to a value, or ends in another way if there is none. -/
def ofOption (missing : Ending α) : Option α → Activity α
  | some value => pure value
  | none => fun _ => ⟨missing, 0, []⟩

/-- A value that is missing because the clock does not go far enough. -/
def ofClock : Option α → Activity α := ofOption .overflow

/-- A value that is missing because sorting gave up. -/
def ofOrder : Option α → Activity α := ofOption .disorder

end Activity

end HostLookup
