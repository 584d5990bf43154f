import HostLookup.Proofs.Query.Conduct

/-!
Where the clock's range is left. A query adds its timeout to the instant at which it is begun, and
this is the only sum that is not bounded by another instant. So a run leaves the clock's range just
if it begins a query whose timeout reaches too far. Nothing is sorted in a query, so that none ends
with that.
-/
set_option autoImplicit false

namespace HostLookup

open Activity

/-- A query is begun at a time from which its timeout reaches beyond the clock's range. -/
def Event.Oversteps (timeout : Nat) (x : Event) : Prop :=
  (∃ server type, x.deed = .queried server type) ∧ timeout ≠ 0 ∧ Clock.range ≤ x.time + timeout

namespace Activity

variable {α : Type} {cx : Context} {deadline : Option Nat} {work : Activity α} {timeout : Nat}

/-- Endings that nothing but a test comes to. -/
inductive IsCrash : Ending Unit → Prop where
  | overflow : IsCrash .overflow
  | disorder : IsCrash .disorder

/-- Runs do not end in this way. -/
def Avoids (d : Ending Unit) : Law := fun _ e _ _ => e ≠ d

variable {d : Ending Unit}

theorem avoids_composes (hd : IsCrash d) : Composes (Avoids d) where
  nothing _ := by cases hd <;> exact nofun
  behind _ h := h

theorem guarded_avoids (hd : IsCrash d) (h : Obeys (Avoids d) work) :
    Obeys (Avoids d) (guarded cx deadline work) := by
  intro w
  have hw := h w
  have hg := guarded_guarding cx deadline work w
  generalize guarded cx deadline work w = r at hg
  cases hg with
  | halted _ he =>
    rw [he.status_eq]
    exact hw
  | _ => cases hd <;> exact nofun

/-- The clock's range is left just if a query is begun that oversteps it. -/
def LeavesRange (timeout : Nat) : Law := fun _ e _ es =>
  e = .overflow ↔ ∃ x ∈ es, x.Oversteps timeout

theorem leavesRange_composes (timeout : Nat) : Composes (LeavesRange timeout) where
  nothing _ := by simp [LeavesRange]
  behind := by
    intro w m es e n fs h h'
    have hnone : ¬ ∃ x ∈ es, x.Oversteps timeout := fun hx => nomatch h.mpr hx
    constructor
    · intro he
      obtain ⟨x, hx, hover⟩ := h'.mp he
      exact ⟨x, List.mem_append_right es hx, hover⟩
    · rintro ⟨x, hx, hover⟩
      rcases List.mem_append.mp hx with hx | hx
      · exact absurd ⟨x, hx, hover⟩ hnone
      · exact h'.mpr ⟨x, hx, hover⟩

end Activity

theorem Context.effectiveDeadline?_eq_none_iff_range {cx : Context} {now timeout : Nat} :
    cx.effectiveDeadline? now timeout = none ↔ timeout ≠ 0 ∧ Clock.range ≤ now + timeout := by
  rw [effectiveDeadline?_eq_none_iff, Clock.after?]
  by_cases h : now + timeout < Clock.range
  · rw [if_pos h]
    simp [h]
  · rw [if_neg h]
    simp [Nat.le_of_not_lt h]

namespace Query

variable {cx : Context} {deadline : Option Nat} {server : Endpoint} {w : World}
variable {net : Network} {id : UInt16} {config : Config} {target : Target} {s : Server}
variable {type : RecordType}

section

variable {d : Ending Unit} (hd : IsCrash d)
include hd

theorem permits_avoids : Permits (Avoids d) where
  toComposes := avoids_composes hd
  sleep _ _ := by cases hd <;> exact nofun
  stall _ := by cases hd <;> exact nofun
  shook _ := by cases hd <;> exact nofun
  sent _ _ := by cases hd <;> exact nofun

theorem talks_avoids : Talks (Avoids d) cx deadline server where
  toComposes := avoids_composes hd
  shake s a := guarded_avoids hd (shakeHands_obeys (permits_avoids hd) s a)
  exchange c r := guarded_avoids hd (Exchange.run_obeys (permits_avoids hd) c r)
  replied _ _ := by cases hd <;> exact nofun

theorem ask_avoids (net : Network) (protocol : Protocol) (r : Request) :
    Obeys (Avoids d) (ask net cx deadline protocol server r) :=
  ask_obeys (talks_avoids hd) net protocol r <| guarded_avoids hd <|
    dial_obeys (permits_avoids hd) (fun _ => by cases hd <;> exact nofun) net

theorem answering_avoids :
    Obeys (Avoids d) (answering net id config cx deadline target s type) :=
  answering_obeys (avoids_composes hd) (ask_avoids hd net _ _)

end

theorem run_avoids_disorder (net : Network) (id : UInt16) (config : Config) (cx : Context)
    (target : Target) (s : Server) (type : RecordType) :
    Obeys (Avoids .disorder) (run net id config cx target s type) := by
  intro w
  cases hd : cx.effectiveDeadline? w.now config.timeout with
  | none =>
    rw [run_of_overflow hd]
    exact nofun
  | some deadline =>
    rw [run_of_deadline hd]
    exact answering_avoids .disorder _

theorem begun_oversteps_iff : (begun config s type w).Oversteps config.timeout ↔
    cx.effectiveDeadline? w.now config.timeout = none := by
  rw [Context.effectiveDeadline?_eq_none_iff_range]
  constructor
  · exact fun h => h.2
  · exact fun h => ⟨⟨_, _, rfl⟩, h⟩

/-- A query leaves the clock's range when it is begun, or not at all. -/
theorem run_leavesRange (net : Network) (id : UInt16) (config : Config) (cx : Context)
    (target : Target) (s : Server) (type : RecordType) :
    Obeys (LeavesRange config.timeout) (run net id config cx target s type) := by
  intro w
  cases hd : cx.effectiveDeadline? w.now config.timeout with
  | none =>
    rw [run_of_overflow hd]
    have hover : (begun config s type w).Oversteps config.timeout := begun_oversteps_iff.mpr hd
    exact ⟨fun _ => ⟨_, List.mem_singleton_self _, hover⟩, fun _ => rfl⟩
  | some deadline =>
    have hbegun : ¬ (begun config s type w).Oversteps config.timeout := by
      intro hover
      have hnone : cx.effectiveDeadline? w.now config.timeout = none := begun_oversteps_iff.mp hover
      rw [hd] at hnone
      cases hnone
    have hrest : Obeys (Only fun d => d = .dialed config.protocol.transport
        (s.endpoint config.protocol) ∨ Speech (s.endpoint config.protocol) d)
        (answering net id config cx deadline target s type) :=
      answering_obeys (only_composes _) (ask_only net cx deadline _ _ _)
    rw [run_of_deadline hd]
    constructor
    · intro he
      exact absurd he (answering_avoids .overflow _)
    · rintro ⟨x, hx, hover⟩
      rcases List.mem_cons.mp hx with rfl | hx
      · exact absurd hover hbegun
      · obtain ⟨⟨a, t, hqueried⟩, _⟩ := hover
        exact absurd hqueried (deed_ne_of_contact (hrest _ x hx) nofun nofun)

end Query

end HostLookup
