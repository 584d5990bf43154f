import HostLookup.Activity.Basic

/-!
Activities in sequence. A run of two activities is a run of the first one behind which the second
one runs in the world that is left, unless the first one does not return. Hence a law about runs
that is kept when runs are put behind each other holds of whatever is composed of activities that
obey it.
-/
set_option autoImplicit false

namespace HostLookup

namespace Ending

variable {α β : Type}

/-- An activity that does not return halts the one that waits for it. -/
inductive Halts : Ending α → Ending β → Prop where
  | stalled : Halts .stalled .stalled
  | overflow : Halts .overflow .overflow
  | disorder : Halts .disorder .disorder

/-- The ending without the value. -/
def status : Ending α → Ending Unit
  | returned _ => .returned ()
  | stalled => .stalled
  | overflow => .overflow
  | disorder => .disorder

@[simp] theorem status_returned (a : α) : (returned a).status = .returned () := rfl
@[simp] theorem status_stalled : (stalled : Ending α).status = .stalled := rfl
@[simp] theorem status_overflow : (overflow : Ending α).status = .overflow := rfl
@[simp] theorem status_disorder : (disorder : Ending α).status = .disorder := rfl

/-- Whatever waits for an activity goes on with its value or is halted with it. -/
theorem returned_or_halts (d : Ending α) (β : Type) :
    (∃ a, d = .returned a) ∨ ∃ e : Ending β, d.Halts e := by
  cases d with
  | returned a => exact .inl ⟨a, rfl⟩
  | stalled => exact .inr ⟨_, .stalled⟩
  | overflow => exact .inr ⟨_, .overflow⟩
  | disorder => exact .inr ⟨_, .disorder⟩

theorem Halts.status_eq {d : Ending α} {e : Ending β} (h : d.Halts e) : e.status = d.status := by
  cases h <;> rfl

/-- What is halted in between halts what waits for it in the same way. -/
theorem Halts.through {d : Ending α} {e : Ending β} (h : d.Halts e) (γ : Type) :
    ∃ f : Ending γ, e.Halts f ∧ d.Halts f := by
  cases h with
  | stalled => exact ⟨_, .stalled, .stalled⟩
  | overflow => exact ⟨_, .overflow, .overflow⟩
  | disorder => exact ⟨_, .disorder, .disorder⟩

theorem Halts.eq {d e : Ending α} (h : d.Halts e) : e = d := by
  cases h <;> rfl

theorem Halts.ne_returned {d : Ending α} {e : Ending β} (h : d.Halts e) (b : β) :
    e ≠ .returned b := by
  cases h <;> exact nofun

end Ending

namespace Report

variable {α : Type}

/-- The report of a run with something else before it. -/
def behind (elapsed : Nat) (events : List Event) (r : Report α) : Report α :=
  ⟨r.ending, elapsed + r.elapsed, events ++ r.events⟩

@[simp] theorem behind_zero_nil (r : Report α) : r.behind 0 [] = r := by
  simp [behind]

/-- Behind events that took no time, what ends at once takes none. -/
theorem behind_zero_instant (events : List Event) (e : Ending α) :
    (⟨e, 0, []⟩ : Report α).behind 0 events = ⟨e, 0, events⟩ := by
  simp [behind]

end Report

namespace World

theorem dialedBy_append (es fs : List Event) : dialedBy (es ++ fs) = dialedBy es ++ dialedBy fs :=
  List.filterMap_append

@[simp] theorem now_after (w : World) (n : Nat) (es : List Event) :
    (w.after n es).now = w.now + n := rfl

@[simp] theorem cancellations_after (w : World) (n : Nat) (es : List Event) :
    (w.after n es).cancellations = w.cancellations ++ cancelledBy es := rfl

end World

namespace Activity

variable {α β : Type} {first : Activity α} {next : α → Activity β} {w : World}

theorem bind_of_returned {a : α} {m : Nat} {es : List Event} (h : first w = ⟨.returned a, m, es⟩) :
    (first >>= next) w = (next a (w.after m es)).behind m es := by
  change bind first next w = _
  simp only [bind, h]
  rfl

theorem bind_of_halts {d : Ending α} {e : Ending β} {m : Nat} {es : List Event}
    (h : first w = ⟨d, m, es⟩) (hd : d.Halts e) : (first >>= next) w = ⟨e, m, es⟩ := by
  change bind first next w = _
  cases hd <;> simp only [bind, h]

theorem bind_congr_first {other : Activity α} (h : first w = other w) :
    (first >>= next) w = (other >>= next) w := by
  change bind first next w = bind other next w
  simp only [bind, h]

theorem bind_returned {b : β} {n : Nat} {fs : List Event}
    (h : (first >>= next) w = ⟨.returned b, n, fs⟩) :
    ∃ a m es k gs, first w = ⟨.returned a, m, es⟩ ∧
      next a (w.after m es) = ⟨.returned b, k, gs⟩ ∧ n = m + k ∧ fs = es ++ gs := by
  cases hf : first w with
  | mk ending m es =>
    rcases ending.returned_or_halts β with ⟨a, rfl⟩ | ⟨e, he⟩
    · rw [bind_of_returned hf] at h
      cases hn : next a (w.after m es) with
      | mk ending k gs =>
        rw [hn] at h
        cases h
        exact ⟨a, m, es, k, gs, rfl, hn, rfl, rfl⟩
    · rw [bind_of_halts hf he] at h
      exact absurd (congrArg Report.ending h) (he.ne_returned b)

@[simp] theorem pure_apply (a : α) : (Pure.pure a : Activity α) w = ⟨.returned a, 0, []⟩ := rfl

theorem pure_returned {a b : α} {n : Nat} {es : List Event}
    (h : (Pure.pure a : Activity α) w = ⟨.returned b, n, es⟩) : b = a ∧ n = 0 ∧ es = [] := by
  cases h
  exact ⟨rfl, rfl, rfl⟩

/-- A law about runs: the world at the start, how the run ends, how long it takes, its events. -/
abbrev Law := World → Ending Unit → Nat → List Event → Prop

/-- Laws that are kept when one run is put behind another. -/
structure Composes (R : Law) : Prop where
  nothing : ∀ w, R w (.returned ()) 0 []
  behind : ∀ {w m es e n fs}, R w (.returned ()) m es → R (w.after m es) e n fs →
    R w e (m + n) (es ++ fs)

/-- Every run of the activity follows the law. -/
def Obeys (R : Law) (a : Activity α) : Prop := ∀ w, R w (a w).ending.status (a w).elapsed (a w).events

namespace Obeys

variable {R : Law}

theorem report {e : Ending α} {n : Nat} {es : List Event} (h : Obeys R first)
    (hr : first w = ⟨e, n, es⟩) : R w e.status n es := by
  have := h w
  rwa [hr] at this

theorem pure (hR : Composes R) (a : α) : Obeys R (Pure.pure a : Activity α) := fun w => hR.nothing w

theorem bind (hR : Composes R) (hf : Obeys R first) (hn : ∀ a, Obeys R (next a)) :
    Obeys R (first >>= next) := by
  intro w
  cases hr : first w with
  | mk ending m es =>
    have h := hf.report hr
    rcases ending.returned_or_halts β with ⟨a, rfl⟩ | ⟨e, he⟩
    · rw [bind_of_returned hr]
      exact hR.behind h (hn a _)
    · rwa [bind_of_halts hr he, he.status_eq]

end Obeys

/-- Every run ends after a while, whether it returns or not. -/
def EndsWithin (n : Nat) (a : Activity α) : Prop :=
  ∀ w, (a w).ending.status ≠ .stalled ∧ (a w).elapsed ≤ n

namespace EndsWithin

variable {m n : Nat}

theorem mono {a : Activity α} (h : EndsWithin m a) (hmn : m ≤ n) : EndsWithin n a :=
  fun w => ⟨(h w).1, Nat.le_trans (h w).2 hmn⟩

theorem pure (a : α) : EndsWithin n (Pure.pure a : Activity α) :=
  fun _ => ⟨by simp, Nat.zero_le n⟩

theorem bind (hf : EndsWithin m first) (hn : ∀ a, EndsWithin n (next a)) :
    EndsWithin (m + n) (first >>= next) := by
  intro w
  obtain ⟨hs, hm⟩ := hf w
  cases hr : first w with
  | mk ending k es =>
    rw [hr] at hs hm
    dsimp only at hs hm
    rcases ending.returned_or_halts β with ⟨a, rfl⟩ | ⟨e, he⟩
    · rw [bind_of_returned hr]
      have h := hn a (w.after k es)
      exact ⟨h.1, by dsimp only [Report.behind]; omega⟩
    · rw [bind_of_halts hr he, he.status_eq]
      exact ⟨hs, by dsimp only; omega⟩

end EndsWithin

end Activity

end HostLookup
