import HostLookup.Activity.Basic

/-!
Cutting activities short. Guarded work does not start once its context is done, and stops with
nothing when the context's token is cancelled or the deadline is reached; when work and cut-off fall
on the same instant, the cut-off wins. A caller that loses patience stops waiting too, but only
after the instant up to which it waits.
-/
set_option autoImplicit false

namespace HostLookup

namespace Report

variable {α : Type}

/-- The report of work that was started at `now` and is interrupted at `cutoff`. -/
def interruptAt (now cutoff : Nat) (r : Report α) : Report (Option α) :=
  let cut : Report (Option α) :=
    ⟨.returned none, cutoff - now, r.events.filter fun e => e.time < cutoff⟩
  if now + r.elapsed < cutoff then
    match r.ending with
    | .returned value => ⟨.returned (some value), r.elapsed, r.events⟩
    | .overflow => ⟨.overflow, r.elapsed, r.events⟩
    | .disorder => ⟨.disorder, r.elapsed, r.events⟩
    | .stalled => cut
  else cut

/-- The report of work that nobody interrupts. -/
def uninterrupted (r : Report α) : Report (Option α) where
  ending :=
    match r.ending with
    | .returned value => .returned (some value)
    | .stalled => .stalled
    | .overflow => .overflow
    | .disorder => .disorder
  elapsed := r.elapsed
  events := r.events

/-- The report of a caller who stops waiting after `patience`. -/
def within (now patience : Nat) (r : Report α) : Report α :=
  let lost : Report α :=
    ⟨.stalled, patience, r.events.filter fun e => e.time ≤ now + patience⟩
  if r.elapsed ≤ patience then
    match r.ending with
    | .stalled => lost
    | _ => r
  else lost

end Report

namespace Activity

variable {α : Type}

/-- Runs `work` for a context until `deadline`, and returns nothing if it is cut short. -/
def guarded (cx : Context) (deadline : Option Nat) (work : Activity α) : Activity (Option α) :=
  fun w =>
    match cx.cutoff w.cancellations deadline with
    | none => (work w).uninterrupted
    | some cutoff =>
      if cutoff ≤ w.now then ⟨.returned none, 0, []⟩
      else (work w).interruptAt w.now cutoff

/-- Runs `work` for at most `patience`. -/
def within (patience : Nat) (work : Activity α) : Activity α :=
  fun w => (work w).within w.now patience

/-- The context is cancelled or expired. -/
def isDone (cx : Context) : Activity Bool := do
  let w ← world
  return cx.isDone w.cancellations w.now

end Activity

end HostLookup
