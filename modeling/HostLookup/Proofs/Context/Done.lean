import HostLookup.Proofs.Activity.Interruption
import Mathlib.Data.List.Basic

/-!
What decides whether a context is done: its deadline, and the cancellations of its token and of
those that the token descends from. A context that another one binds is done whenever that one is;
other cancellations make no difference to it.
-/
set_option autoImplicit false

namespace HostLookup

open Clock (ComesBy)

namespace Clock

theorem earlier_min? (ds : List Nat) (d : Nat) : earlier ds.min? (some d) = (d :: ds).min? := by
  rw [List.min?_cons, earlier_comm]
  cases ds.min? <;> rfl

theorem comesBy_min?_iff {ds : List Nat} {t : Nat} : ComesBy ds.min? t ↔ ∃ d ∈ ds, d ≤ t := by
  induction ds with
  | nil => simp
  | cons d ds ih =>
    rw [← earlier_min?, comesBy_earlier_iff, ih, comesBy_some_iff, List.exists_mem_cons_iff]
    exact or_comm

end Clock

namespace Context

variable {cx cx' cx'' : Context} {cs ds : List Cancellation} {now now' timeout : Nat}

theorem isDone_iff_exists : cx.isDone cs now = true ↔
    (∃ c ∈ cs, c.id ∈ cx.token.lineage ∧ c.time ≤ now) ∨ ComesBy cx.deadline now := by
  rw [isDone_iff, cutoff, Clock.comesBy_earlier_iff, Token.comesBy_cancelTime_iff]

theorem isDone_congr (h : ∀ c, c.id ∈ cx.token.lineage → (c ∈ cs ↔ c ∈ ds)) :
    cx.isDone cs now = cx.isDone ds now := by
  rw [Bool.eq_iff_iff, isDone_iff_exists, isDone_iff_exists]
  refine or_congr_left (exists_congr fun c => ?_)
  rw [← and_assoc, ← and_assoc, and_congr_left_iff]
  intro _
  exact and_congr_left (h c)

theorem withTimeout?_eq_some_iff : cx.withTimeout? now timeout = some cx' ↔
    now + timeout < Clock.range ∧ cx.withDeadline (now + timeout) = cx' := by
  simp [withTimeout?, Clock.after?]

theorem effectiveDeadline?_of_pos (hp : 0 < timeout) (h : now + timeout < Clock.range) :
    cx.effectiveDeadline? now timeout = some (Clock.earlier cx.deadline (some (now + timeout))) := by
  rw [effectiveDeadline?, if_neg (Nat.ne_of_gt hp), Clock.after?, if_pos h]
  rfl

/-- The second context ends with the first one, whichever of its limits that reaches. -/
structure Binds (cx cx' : Context) : Prop where
  deadline : ∀ t, ComesBy cx.deadline t → ComesBy cx'.deadline t
  lineage : cx.token.lineage ⊆ cx'.token.lineage

namespace Binds

theorem refl (cx : Context) : cx.Binds cx where
  deadline _ h := h
  lineage := List.Subset.refl _

theorem trans (h : cx.Binds cx') (h' : cx'.Binds cx'') : cx.Binds cx'' where
  deadline t ht := h'.deadline t (h.deadline t ht)
  lineage := List.Subset.trans h.lineage h'.lineage

theorem withDeadline (cx : Context) (d : Nat) : cx.Binds (cx.withDeadline d) where
  deadline _ h := h.earlier_left
  lineage := List.Subset.refl _

theorem withToken {u : Token} (h : cx.token.lineage ⊆ u.lineage) : cx.Binds (cx.withToken u) where
  deadline _ ht := ht
  lineage := h

/-- Time goes on and cancellations are added, so what binds a context does so for good. -/
theorem isDone (h : cx.Binds cx') (hcs : cs ⊆ ds) (hnow : now ≤ now')
    (hdone : cx.isDone cs now = true) : cx'.isDone ds now' = true := by
  rw [isDone_iff_exists] at hdone ⊢
  rcases hdone with ⟨c, hc, hid, htime⟩ | hdeadline
  · exact .inl ⟨c, hcs hc, h.lineage hid, Nat.le_trans htime hnow⟩
  · exact .inr ((h.deadline now hdeadline).mono hnow)

end Binds

end Context

end HostLookup
