import HostLookup.Activity.Guard
import HostLookup.Proofs.Activity.Sequence

/-!
What guarding an activity comes to. Guarded work is over by the cut-off, returns a value only if it
did so before the cut-off, and does nothing that the work itself would not have done. A cut-off never
moves to a later instant, since cancellations are never taken back.
-/
set_option autoImplicit false

namespace HostLookup

namespace Clock

/-- An instant that comes, and not after another one. -/
def ComesBy (s : Option Nat) (t : Nat) : Prop := ∃ u, s = some u ∧ u ≤ t

variable {s u : Option Nat} {m t : Nat}

theorem ComesBy.earlier_left (h : ComesBy s t) : ComesBy (earlier s u) t := by
  obtain ⟨v, rfl, hv⟩ := h
  cases u with
  | none => exact ⟨v, rfl, hv⟩
  | some u => exact ⟨min v u, rfl, Nat.le_trans (Nat.min_le_left v u) hv⟩

theorem ComesBy.earlier_right (h : ComesBy u t) : ComesBy (earlier s u) t := by
  rw [earlier_comm]
  exact h.earlier_left

theorem comesBy_earlier_iff : ComesBy (earlier s u) t ↔ ComesBy s t ∨ ComesBy u t := by
  constructor
  · rintro ⟨v, hv, hvt⟩
    cases s with
    | none => exact Or.inr ⟨v, hv, hvt⟩
    | some s =>
      cases u with
      | none => exact Or.inl ⟨v, hv, hvt⟩
      | some u =>
        cases hv
        rcases Nat.le_total s u with h | h
        · rw [Nat.min_eq_left h] at hvt
          exact Or.inl ⟨s, rfl, hvt⟩
        · rw [Nat.min_eq_right h] at hvt
          exact Or.inr ⟨u, rfl, hvt⟩
  · rintro (h | h)
    · exact h.earlier_left
    · exact h.earlier_right

@[simp] theorem comesBy_some_iff : ComesBy (some m) t ↔ m ≤ t := by
  constructor
  · rintro ⟨u, hu, h⟩
    cases hu
    exact h
  · exact fun h => ⟨m, rfl, h⟩

@[simp] theorem not_comesBy_none : ¬ ComesBy none t := by
  rintro ⟨u, hu, _⟩
  cases hu

theorem ComesBy.mono (h : ComesBy s m) (hmt : m ≤ t) : ComesBy s t := by
  obtain ⟨u, hu, hum⟩ := h
  exact ⟨u, hu, Nat.le_trans hum hmt⟩

end Clock

open Clock (ComesBy)

namespace Token

theorem cancelTime_append (t : Token) (cs ds : List Cancellation) :
    t.cancelTime (cs ++ ds) = Clock.earlier (t.cancelTime cs) (t.cancelTime ds) := by
  induction cs with
  | nil => rfl
  | cons c cs ih =>
    simp only [List.cons_append, cancelTime]
    split
    · rw [ih, Clock.earlier_assoc]
    · exact ih

theorem comesBy_cancelTime_iff {t : Token} {cs : List Cancellation} {now : Nat} :
    ComesBy (t.cancelTime cs) now ↔ ∃ c ∈ cs, c.id ∈ t.lineage ∧ c.time ≤ now := by
  induction cs with
  | nil => simp [cancelTime]
  | cons c cs ih =>
    simp only [cancelTime, List.mem_cons, exists_eq_or_imp, ← ih]
    split
    · rename_i hc
      rw [Clock.comesBy_earlier_iff, Clock.comesBy_some_iff, and_iff_right hc]
    · rename_i hc
      rw [or_iff_right fun h => hc h.1]

theorem comesBy_cancelTime {t : Token} {cs : List Cancellation} {c : Cancellation} (hc : c ∈ cs)
    (ht : c.id ∈ t.lineage) : ComesBy (t.cancelTime cs) c.time :=
  comesBy_cancelTime_iff.mpr ⟨c, hc, ht, Nat.le_refl c.time⟩

end Token

namespace Context

variable {cx : Context} {cs ds : List Cancellation} {d : Option Nat} {now timeout t : Nat}

theorem comesBy_cutoff_append (h : ComesBy (cx.cutoff cs d) t) :
    ComesBy (cx.cutoff (cs ++ ds) d) t := by
  unfold cutoff at h ⊢
  rw [Token.cancelTime_append]
  rcases Clock.comesBy_earlier_iff.mp h with h | h
  · exact h.earlier_left.earlier_left
  · exact h.earlier_right

theorem isDone_iff : cx.isDone cs now = true ↔ ComesBy (cx.cutoff cs cx.deadline) now := by
  unfold isDone
  cases cx.cutoff cs cx.deadline <;> simp

theorem effectiveDeadline?_eq_some (h : cx.effectiveDeadline? now timeout = some d) :
    d = Clock.earlier cx.deadline (if timeout = 0 then none else some (now + timeout)) := by
  unfold effectiveDeadline? Clock.after? at h
  split at h
  · cases h
    rw [if_pos (by assumption), Clock.earlier_none_right]
  · rw [if_neg (by assumption)]
    split at h
    · cases h
      rfl
    · cases h

theorem effectiveDeadline?_eq_none_iff :
    cx.effectiveDeadline? now timeout = none ↔ timeout ≠ 0 ∧ Clock.after? now timeout = none := by
  unfold effectiveDeadline?
  split <;> simp_all

/-- Work is never cut off later than its context is done. -/
theorem comesBy_cutoff_of_effective (h : cx.effectiveDeadline? now timeout = some d)
    (ht : ComesBy (cx.cutoff cs cx.deadline) t) : ComesBy (cx.cutoff cs d) t := by
  rw [effectiveDeadline?_eq_some h, cutoff, ← Clock.earlier_assoc]
  exact ht.earlier_left

theorem comesBy_cutoff_timeout (h : cx.effectiveDeadline? now timeout = some d)
    (hp : 0 < timeout) : ComesBy (cx.cutoff cs d) (now + timeout) := by
  rw [effectiveDeadline?_eq_some h, cutoff, if_neg (Nat.ne_of_gt hp)]
  exact (Clock.comesBy_some_iff.mpr (Nat.le_refl _)).earlier_right.earlier_right

/-- At the instant that the deadline is computed only the context itself can be over. -/
theorem comesBy_cutoff_now_iff (h : cx.effectiveDeadline? now timeout = some d) :
    ComesBy (cx.cutoff cs d) now ↔ cx.isDone cs now = true := by
  rw [effectiveDeadline?_eq_some h, cutoff, ← Clock.earlier_assoc, Clock.comesBy_earlier_iff,
    isDone_iff]
  constructor
  · rintro (h | h)
    · exact h
    · split at h
      · exact absurd h Clock.not_comesBy_none
      · have := Clock.comesBy_some_iff.mp h
        omega
  · exact Or.inl

end Context

namespace Activity

variable {α : Type} {cx : Context} {deadline : Option Nat} {work : Activity α} {w : World}

/-- Runs do not go on after an instant by which the context cuts work off. -/
def EndsBy (cx : Context) (deadline : Option Nat) : Law := fun w e n _ =>
  ∀ t, ComesBy (cx.cutoff w.cancellations deadline) t → e ≠ .stalled ∧ w.now + n ≤ max w.now t

theorem endsBy_composes (cx : Context) (deadline : Option Nat) : Composes (EndsBy cx deadline) where
  nothing w t _ := ⟨by simp, Nat.le_max_left w.now t⟩
  behind := by
    intro w m es e n fs h h' t ht
    obtain ⟨_, hm⟩ := h t ht
    obtain ⟨he, hn⟩ := h' t (Context.comesBy_cutoff_append ht)
    rw [World.now_after] at hn
    exact ⟨he, by omega⟩

/-- Only some things are done. -/
def Only (p : Deed → Prop) : Law := fun _ _ _ es => ∀ e ∈ es, p e.deed

theorem only_composes (p : Deed → Prop) : Composes (Only p) where
  nothing := by simp [Only]
  behind := by
    intro w m es e n fs h h' x hx
    rcases List.mem_append.mp hx with hx | hx
    · exact h x hx
    · exact h' x hx

theorem bind_events {β : Type} {p : Deed → Prop} (first : Activity α)
    {next : α → Activity β} (h : ∀ a, Obeys (Only p) (next a))
    (w : World) :
    ∃ es, ((first >>= next) w).events = (first w).events ++ es ∧ ∀ e ∈ es, p e.deed := by
  cases hf : first w with
  | mk ending m es =>
    rcases ending.returned_or_halts β with ⟨a, rfl⟩ | ⟨e, he⟩
    · rw [bind_of_returned hf]
      exact ⟨_, rfl, h a _⟩
    · exact ⟨[], by rw [bind_of_halts hf he, List.append_nil], by simp⟩

/-- The clock's range is left only where a timeout begins that reaches beyond it. -/
def OverflowsFor (timeout : Nat) : Law := fun w e n _ =>
  e = .overflow → Clock.after? (w.now + n) timeout = none

theorem overflowsFor_composes (timeout : Nat) : Composes (OverflowsFor timeout) where
  nothing := by simp [OverflowsFor]
  behind := by
    intro w m es e n fs _ h he
    rw [← Nat.add_assoc]
    exact h he

/-- What becomes of work that starts at `now` and would be reported as `r`, by the cut-off. -/
inductive Guarding (now : Nat) (cutoff : Option Nat) (r : Report α) : Report (Option α) → Prop where
  /-- The work is not started. -/
  | barred : ComesBy cutoff now → Guarding now cutoff r ⟨.returned none, 0, []⟩
  | finished {a : α} : r.ending = .returned a → ¬ ComesBy cutoff (now + r.elapsed) →
      Guarding now cutoff r ⟨.returned (some a), r.elapsed, r.events⟩
  | cut {t : Nat} : cutoff = some t → now < t →
      Guarding now cutoff r ⟨.returned none, t - now, r.events.filter fun e => e.time < t⟩
  | stalled : cutoff = none → r.ending = .stalled →
      Guarding now cutoff r ⟨.stalled, r.elapsed, r.events⟩
  /-- The work ends in another way that the one who guards it cannot go on from. -/
  | halted {e : Ending (Option α)} : ¬ ComesBy cutoff (now + r.elapsed) → r.ending.Halts e →
      e ≠ .stalled → Guarding now cutoff r ⟨e, r.elapsed, r.events⟩

theorem interruptAt_guarding {now t : Nat} {r : Report α} (h : now < t) :
    Guarding now (some t) r (r.interruptAt now t) := by
  unfold Report.interruptAt
  split
  · rename_i hlt
    have hn : ¬ ComesBy (some t) (now + r.elapsed) := by simpa using hlt
    cases hr : r.ending with
    | returned a => exact .finished hr hn
    | stalled => exact .cut rfl h
    | overflow => exact .halted hn (hr ▸ .overflow) nofun
    | disorder => exact .halted hn (hr ▸ .disorder) nofun
  · exact .cut rfl h

theorem guarded_guarding (cx : Context) (deadline : Option Nat) (work : Activity α) (w : World) :
    Guarding w.now (cx.cutoff w.cancellations deadline) (work w)
      (guarded cx deadline work w) := by
  unfold guarded
  cases cx.cutoff w.cancellations deadline with
  | none =>
    unfold Report.uninterrupted
    cases hr : (work w).ending with
    | returned a => exact .finished hr Clock.not_comesBy_none
    | stalled => exact .stalled rfl hr
    | overflow => exact .halted Clock.not_comesBy_none (by rw [hr]; exact .overflow) nofun
    | disorder => exact .halted Clock.not_comesBy_none (by rw [hr]; exact .disorder) nofun
  | some t =>
    dsimp only
    split
    · exact .barred (Clock.comesBy_some_iff.mpr (by assumption))
    · exact interruptAt_guarding (Nat.lt_of_not_le (by assumption))

theorem guarded_of_comesBy (h : ComesBy (cx.cutoff w.cancellations deadline) w.now) :
    guarded cx deadline work w = ⟨.returned none, 0, []⟩ := by
  obtain ⟨t, ht, hle⟩ := h
  simp only [guarded, ht, if_pos hle]

theorem guarded_returned_some {a : α} {n : Nat} {es : List Event}
    (h : guarded cx deadline work w = ⟨.returned (some a), n, es⟩) :
    work w = ⟨.returned a, n, es⟩ ∧
      ¬ ComesBy (cx.cutoff w.cancellations deadline) (w.now + n) := by
  have hg := guarded_guarding cx deadline work w
  rw [h] at hg
  generalize hr : work w = r at hg
  cases hg with
  | finished he hn =>
    cases r
    cases he
    exact ⟨rfl, hn⟩
  | halted _ he => exact absurd rfl (he.ne_returned _)

theorem guarded_endsBy (cx : Context) (deadline : Option Nat) (work : Activity α) :
    Obeys (EndsBy cx deadline) (guarded cx deadline work) := by
  intro w t ht
  have hg := guarded_guarding cx deadline work w
  generalize guarded cx deadline work w = r at hg
  cases hg with
  | barred => exact ⟨by simp, Nat.le_max_left w.now t⟩
  | finished _ hn =>
    refine ⟨by simp, ?_⟩
    have : ¬ t ≤ w.now + (work w).elapsed := fun h => hn (ht.mono h)
    dsimp only
    omega
  | cut hc hlt =>
    rw [hc, Clock.comesBy_some_iff] at ht
    exact ⟨by simp, by dsimp only; omega⟩
  | stalled hc _ =>
    rw [hc] at ht
    exact absurd ht Clock.not_comesBy_none
  | @halted e hn _ hs =>
    refine ⟨by cases e <;> simp_all, ?_⟩
    have : ¬ t ≤ w.now + (work w).elapsed := fun h => hn (ht.mono h)
    dsimp only
    omega

theorem mem_events_of_guarded {e : Event} (h : e ∈ (guarded cx deadline work w).events) :
    e ∈ (work w).events := by
  have hg := guarded_guarding cx deadline work w
  generalize guarded cx deadline work w = r at h hg
  cases hg with
  | barred => cases h
  | finished => exact h
  | cut => exact (List.mem_filter.mp h).1
  | stalled => exact h
  | halted => exact h

theorem guarded_only {p : Deed → Prop} (h : Obeys (Only p) work) :
    Obeys (Only p) (guarded cx deadline work) :=
  fun w e he => h w e (mem_events_of_guarded he)

theorem guarded_overflowsFor {timeout : Nat} (h : Obeys (OverflowsFor timeout) work) :
    Obeys (OverflowsFor timeout) (guarded cx deadline work) := by
  intro w
  have hw := h w
  have hg := guarded_guarding cx deadline work w
  generalize guarded cx deadline work w = r at hg
  cases hg with
  | halted _ he =>
    rw [he.status_eq]
    exact hw
  | _ => simp [OverflowsFor]

/-- What is done as soon as guarded work starts is not left out. -/
theorem guarded_events_of_start (hn : ¬ ComesBy (cx.cutoff w.cancellations deadline) w.now)
    (h : ∀ e ∈ (work w).events, e.time = w.now) :
    (guarded cx deadline work w).events = (work w).events := by
  have hg := guarded_guarding cx deadline work w
  generalize guarded cx deadline work w = r at hg
  cases hg with
  | barred hb => exact absurd hb hn
  | cut hc hlt =>
    apply List.filter_eq_self.mpr
    intro e he
    rw [h e he]
    exact decide_eq_true hlt
  | _ => rfl

end Activity

end HostLookup
