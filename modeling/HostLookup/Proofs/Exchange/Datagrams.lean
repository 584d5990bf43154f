import HostLookup.Proofs.Activity.Sequence
import HostLookup.Query.Exchange

/-!
How receiving datagrams goes. Those that are no reply are passed over one by one, which takes the
time until the next one comes and nothing else; the first arrival that is not passed over decides.
-/
set_option autoImplicit false

namespace HostLookup.Exchange

open Activity

/-- Something received over datagrams. -/
abbrev Incoming := Arrival (Except IoFailure Octets)

/-- A datagram that is no reply. -/
def Ignored (request : Message) (a : Incoming) : Prop :=
  ∃ d, a.item = .ok d ∧ replyIn? request d = none

/-- The time until the last of some arrivals. -/
def duration : List Incoming → Nat
  | [] => 0
  | a :: arrivals => a.delay + duration arrivals

theorem duration_append (passed arrivals : List Incoming) :
    duration (passed ++ arrivals) = duration passed + duration arrivals := by
  induction passed with
  | nil => simp [duration]
  | cons a passed ih =>
    simp only [List.cons_append, duration]
    omega

theorem duration_concat (arrivals : List Incoming) (a : Incoming) :
    duration (arrivals ++ [a]) = duration arrivals + a.delay :=
  duration_append arrivals [a]

variable {request : Message} {a : Incoming} {arrivals passed : List Incoming} {w : World}

theorem receive_cons : receive request (a :: arrivals) w =
    ((match a.item with
      | .error failure => Pure.pure (.error failure)
      | .ok d =>
        match replyIn? request d with
        | some reply => Pure.pure (.ok reply)
        | none => receive request arrivals : Activity (Except IoFailure Message))
      (w.after a.delay [])).behind a.delay [] := by
  rw [receive]
  exact bind_of_returned rfl

theorem receive_of_ignored (h : Ignored request a) : receive request (a :: arrivals) w =
    (receive request arrivals (w.after a.delay [])).behind a.delay [] := by
  obtain ⟨d, hd, hnone⟩ := h
  rw [receive_cons, hd]
  dsimp only
  rw [hnone]

theorem receive_of_failed {failure : IoFailure} (h : a.item = .error failure) :
    receive request (a :: arrivals) w = ⟨.returned (.error failure), a.delay, []⟩ := by
  rw [receive_cons, h]
  rfl

theorem receive_of_replied {d : Octets} {reply : Message} (h : a.item = .ok d)
    (hr : replyIn? request d = some reply) :
    receive request (a :: arrivals) w = ⟨.returned (.ok reply), a.delay, []⟩ := by
  rw [receive_cons, h]
  dsimp only
  rw [hr]
  rfl

theorem receive_append (h : ∀ p ∈ passed, Ignored request p) :
    receive request (passed ++ arrivals) w =
      (receive request arrivals (w.after (duration passed) [])).behind (duration passed) [] := by
  induction passed generalizing w with
  | nil => simp [duration]
  | cons p passed ih =>
    have hp := h p List.mem_cons_self
    have hpassed := ih (w := w.after p.delay []) fun q hq => h q (List.mem_cons_of_mem p hq)
    rw [List.cons_append, receive_of_ignored hp, hpassed, World.after_after, duration]
    simp [Report.behind, Nat.add_assoc]

/-- Arrivals that are passed over, and then, at `time`, one that may not be. -/
def Comes (PassedOver : Incoming → Prop) (arrivals : List Incoming) (time : Nat) (a : Incoming) :
    Prop :=
  ∃ passed later, arrivals = passed ++ a :: later ∧ (∀ p ∈ passed, PassedOver p) ∧
    time = duration (passed ++ [a])

namespace Comes

variable {n : Nat}

theorem first {PassedOver : Incoming → Prop} : Comes PassedOver (a :: arrivals) a.delay a :=
  ⟨[], arrivals, rfl, by simp, by simp [duration]⟩

theorem next {PassedOver : Incoming → Prop} {p : Incoming} (hp : PassedOver p)
    (h : Comes PassedOver arrivals n a) : Comes PassedOver (p :: arrivals) (p.delay + n) a := by
  obtain ⟨passed, later, rfl, hpassed, rfl⟩ := h
  refine ⟨p :: passed, later, rfl, ?_, ?_⟩
  · intro q hq
    rcases List.mem_cons.mp hq with rfl | hq
    · exact hp
    · exact hpassed q hq
  · rfl

/-- What follows the arrivals that are passed over is received as if it came alone. -/
theorem receive_eq {x : Except IoFailure Message} (h : Comes (Ignored request) arrivals n a)
    (ha : ∀ later v, receive request (a :: later) v = ⟨.returned x, a.delay, []⟩) :
    receive request arrivals w = ⟨.returned x, n, []⟩ := by
  obtain ⟨passed, later, rfl, hpassed, rfl⟩ := h
  rw [receive_append hpassed, ha, duration_concat]
  rfl

end Comes

/-- How receiving can end: with what fails, with the reply, or never. -/
inductive Reception (request : Message) (arrivals : List Incoming) :
    Report (Except IoFailure Message) → Prop where
  | failed {n : Nat} {a : Incoming} {failure : IoFailure} : Comes (Ignored request) arrivals n a →
      a.item = .error failure → Reception request arrivals ⟨.returned (.error failure), n, []⟩
  | replied {n : Nat} {a : Incoming} {d : Octets} {reply : Message} :
      Comes (Ignored request) arrivals n a → a.item = .ok d → replyIn? request d = some reply →
      Reception request arrivals ⟨.returned (.ok reply), n, []⟩
  | waiting : (∀ p ∈ arrivals, Ignored request p) →
      Reception request arrivals ⟨.stalled, duration arrivals, []⟩

theorem Reception.next {r : Report (Except IoFailure Message)} (ha : Ignored request a)
    (h : Reception request arrivals r) :
    Reception request (a :: arrivals) (r.behind a.delay []) := by
  cases h with
  | failed hc hf => exact .failed (hc.next ha) hf
  | replied hc hd hr => exact .replied (hc.next ha) hd hr
  | waiting hall =>
    rw [Report.behind]
    apply Reception.waiting
    intro p hp
    rcases List.mem_cons.mp hp with rfl | hp
    · exact ha
    · exact hall p hp

theorem receive_reception (request : Message) (arrivals : List Incoming) (w : World) :
    Reception request arrivals (receive request arrivals w) := by
  induction arrivals generalizing w with
  | nil => exact .waiting (by simp)
  | cons a arrivals ih =>
    cases hitem : a.item with
    | error failure =>
      rw [receive_of_failed hitem]
      exact .failed .first hitem
    | ok d =>
      cases hr : replyIn? request d with
      | some reply =>
        rw [receive_of_replied hitem hr]
        exact .replied .first hitem hr
      | none =>
        have ha : Ignored request a := ⟨d, hitem, hr⟩
        rw [receive_of_ignored ha]
        exact (ih _).next ha

variable {n : Nat} {es : List Event}

theorem receive_ok_iff {reply : Message} :
    receive request arrivals w = ⟨.returned (.ok reply), n, es⟩ ↔
      es = [] ∧ ∃ a d, Comes (Ignored request) arrivals n a ∧ a.item = .ok d ∧
        replyIn? request d = some reply := by
  constructor
  · intro h
    have hreception := receive_reception request arrivals w
    rw [h] at hreception
    cases hreception with
    | replied hc hd hr => exact ⟨rfl, _, _, hc, hd, hr⟩
  · rintro ⟨rfl, a, d, hc, hd, hr⟩
    exact hc.receive_eq fun _ _ => receive_of_replied hd hr

theorem receive_error_iff {failure : IoFailure} :
    receive request arrivals w = ⟨.returned (.error failure), n, es⟩ ↔
      es = [] ∧ ∃ a, Comes (Ignored request) arrivals n a ∧ a.item = .error failure := by
  constructor
  · intro h
    have hreception := receive_reception request arrivals w
    rw [h] at hreception
    cases hreception with
    | failed hc hf => exact ⟨rfl, _, hc, hf⟩
  · rintro ⟨rfl, a, hc, hf⟩
    exact hc.receive_eq fun _ _ => receive_of_failed hf

theorem receive_stalled_iff : receive request arrivals w = ⟨.stalled, n, es⟩ ↔
    es = [] ∧ n = duration arrivals ∧ ∀ p ∈ arrivals, Ignored request p := by
  constructor
  · intro h
    have hreception := receive_reception request arrivals w
    rw [h] at hreception
    cases hreception with
    | waiting hall => exact ⟨rfl, rfl, hall⟩
  · rintro ⟨rfl, rfl, hall⟩
    rw [← List.append_nil arrivals, receive_append hall]
    simp [receive, Activity.stall, Report.behind]

theorem Reception.events_eq {r : Report (Except IoFailure Message)}
    (h : Reception request arrivals r) : r.events = [] := by
  cases h <;> rfl

/-- A request that was sent completely is followed by receiving. -/
theorem overDatagrams_of_sent {s : DatagramSocket} {r : Request}
    (h : s.send r.octets = .ok r.octets.length) : overDatagrams s r w =
      (receive r.message (s.arrivals r.octets) (w.after 0 [⟨w.now, .sent r.octets⟩])).behind 0
        [⟨w.now, .sent r.octets⟩] := by
  unfold overDatagrams
  rw [h]
  refine (bind_of_returned rfl).trans ?_
  simp

theorem overDatagrams_eq_iff {s : DatagramSocket} {r : Request}
    {ending : Ending (Except IoFailure Message)} (h : s.send r.octets = .ok r.octets.length) :
    overDatagrams s r w = ⟨ending, n, es⟩ ↔ es = [⟨w.now, .sent r.octets⟩] ∧
      receive r.message (s.arrivals r.octets) (w.after 0 [⟨w.now, .sent r.octets⟩]) =
        ⟨ending, n, []⟩ := by
  have hevents := (receive_reception r.message (s.arrivals r.octets)
    (w.after 0 [⟨w.now, .sent r.octets⟩])).events_eq
  rw [overDatagrams_of_sent h]
  generalize receive r.message _ _ = report at hevents ⊢
  obtain ⟨ending', n', es'⟩ := report
  obtain rfl : es' = [] := hevents
  simp only [Report.behind, Nat.zero_add, List.append_nil, Report.mk.injEq, and_true]
  constructor
  · rintro ⟨rfl, rfl, rfl⟩
    exact ⟨rfl, rfl, rfl⟩
  · rintro ⟨rfl, rfl, rfl⟩
    exact ⟨rfl, rfl, rfl⟩

end HostLookup.Exchange
