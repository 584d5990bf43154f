import HostLookup.Activity.Trace

/-!
Laws of the views of what happened: a view of two runs in sequence is the two views in sequence, and
a view of events of other kinds is empty.
-/
set_option autoImplicit false

namespace HostLookup

namespace World

theorem dialedBy_eq_nil {es : List Event} (h : ∀ e ∈ es, ∀ t a, e.deed ≠ .dialed t a) :
    dialedBy es = [] := by
  apply List.filterMap_eq_nil_iff.mpr
  intro e he
  have := h e he
  split <;> simp_all

theorem cancelledBy_eq_nil {es : List Event} (h : ∀ e ∈ es, ∀ t, e.deed ≠ .cancelled t) :
    cancelledBy es = [] := by
  apply List.filterMap_eq_nil_iff.mpr
  intro e he
  have := h e he
  split <;> simp_all

end World

namespace Trace

/-- The addresses in the replies that report no error. -/
def answered (es : List Event) : List Address :=
  (replies es).flatMap fun r => if r.2.header.rcode = .noError then r.2.addresses else []

/-- The replies that report no error, and whom they came from. -/
def accepted (es : List Event) : List (Endpoint × Message) :=
  (replies es).filter fun r => r.2.header.rcode = .noError

theorem queries_append (es fs : List Event) : queries (es ++ fs) = queries es ++ queries fs :=
  List.filterMap_append

theorem replies_append (es fs : List Event) : replies (es ++ fs) = replies es ++ replies fs :=
  List.filterMap_append

theorem answered_append (es fs : List Event) :
    answered (es ++ fs) = answered es ++ answered fs := by
  simp [answered, replies_append]

theorem accepted_append (es fs : List Event) :
    accepted (es ++ fs) = accepted es ++ accepted fs := by
  simp [accepted, replies_append]

theorem queries_eq_nil {es : List Event} (h : ∀ e ∈ es, ∀ a t, e.deed ≠ .queried a t) :
    queries es = [] := by
  apply List.filterMap_eq_nil_iff.mpr
  intro e he
  have := h e he
  split <;> simp_all

theorem replies_eq_nil {es : List Event} (h : ∀ e ∈ es, ∀ a m, e.deed ≠ .replied a m) :
    replies es = [] := by
  apply List.filterMap_eq_nil_iff.mpr
  intro e he
  have := h e he
  split <;> simp_all

theorem answered_eq_nil {es : List Event} (h : ∀ e ∈ es, ∀ a m, e.deed ≠ .replied a m) :
    answered es = [] := by
  rw [answered, replies_eq_nil h, List.flatMap_nil]

theorem accepted_eq_nil {es : List Event} (h : ∀ e ∈ es, ∀ a m, e.deed ≠ .replied a m) :
    accepted es = [] := by
  rw [accepted, replies_eq_nil h, List.filter_nil]

theorem mem_answered {es : List Event} {a : Address} : a ∈ answered es ↔
    ∃ server reply, (server, reply) ∈ replies es ∧ reply.header.rcode = .noError ∧
      a ∈ reply.addresses := by
  simp only [answered, List.mem_flatMap, List.mem_ite_nil_right, Prod.exists]

end Trace

end HostLookup
