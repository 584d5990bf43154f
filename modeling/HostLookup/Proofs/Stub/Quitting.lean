import HostLookup.Proofs.Query.Punctual
import HostLookup.Proofs.Search.Lookup
import HostLookup.Proofs.Stub.Laws

/-!
What lookups start when there is no time left: nothing. Servers are still gone through, but neither
is a connection made nor is anything written to one once the context is done or a query's own time
is over; and a search list is left when a candidate fails with the context done.
-/
set_option autoImplicit false

namespace HostLookup

open Activity

/-- A resolver is asked by another one. -/
def Deed.IsQuestion (d : Deed) : Prop := ∃ network host, d = .asked network host

namespace Search

variable {cx : Context} {w : World} {es fs : List Event} {m : Nat}

/-- The first question is asked at once, and every other one while the context is not done. -/
def AsksInTime (cx : Context) (w : World) (es : List Event) : Prop :=
  ∀ before x behind, es = before ++ x :: behind → x.deed.IsQuestion →
    before = [] ∧ x.time = w.now ∨ cx.isDone w.cancellations x.time = false

theorem AsksInTime.nil : AsksInTime cx w [] := by
  intro before x behind hsplit
  simp at hsplit

/-- Whoever passes one question on, and at once, asks in time. -/
theorem AsksInTime.single {x : Event} (hx : x.time = w.now)
    (h : ∀ y ∈ es, ¬ y.deed.IsQuestion) : AsksInTime cx w (x :: es) := by
  intro before y behind hsplit hy
  cases before with
  | nil =>
    rw [List.nil_append, List.cons.injEq] at hsplit
    exact .inl ⟨rfl, hsplit.1 ▸ hx⟩
  | cons b before =>
    rw [List.cons_append, List.cons.injEq] at hsplit
    exact absurd hy (h y (hsplit.2 ▸ List.mem_append_right before List.mem_cons_self))

theorem not_isDone_of_after {t : Nat} (h : cx.isDone (w.after m es).cancellations t = false) :
    cx.isDone w.cancellations t = false := by
  rw [← Bool.not_eq_true, Context.isDone_iff] at h ⊢
  intro hcomes
  exact h (Context.comesBy_cutoff_append hcomes)

/-- What follows asks in time, too, if the context is not done when it begins. -/
theorem AsksInTime.append
    (hdone : cx.isDone (w.after m es).cancellations (w.after m es).now = false)
    (h : AsksInTime cx w es) (h' : AsksInTime cx (w.after m es) fs) :
    AsksInTime cx w (es ++ fs) := by
  intro before x behind hsplit hx
  have hlater {before' : List Event} (hfs : fs = before' ++ x :: behind) :
      cx.isDone w.cancellations x.time = false := by
    rcases h' before' x behind hfs hx with ⟨_, hnow⟩ | hlate
    · rw [hnow]
      exact not_isDone_of_after hdone
    · exact not_isDone_of_after hlate
  rcases List.append_eq_append_iff.mp hsplit with ⟨as, _, hfs⟩ | ⟨bs, hes, hfs⟩
  · exact .inr (hlater hfs)
  · cases bs with
    | nil => exact .inr (@hlater [] hfs.symm)
    | cons b bs =>
      rw [List.cons_append, List.cons.injEq] at hfs
      obtain ⟨rfl, _⟩ := hfs
      exact h before x bs hes hx

variable {ask : String → Activity Answer}

theorem tryAll_asksInTime (h : ∀ name w, AsksInTime cx w (ask name w).events)
    (none : Failure) (first : Option Failure) (names : List String) (w : World) :
    AsksInTime cx w (tryAll ask (isDone cx) none first names w).events := by
  induction names generalizing first w with
  | nil => exact .nil
  | cons name names ih =>
    have hname := h name w
    cases hask : ask name w with
    | mk ending m es =>
      rw [hask] at hname
      rcases ending.returned_or_halts Answer with ⟨answer, rfl⟩ | ⟨e, he⟩
      · cases answer with
        | ok addrs =>
          rw [tryAll_ok hask]
          exact hname
        | error f =>
          rw [tryAll_error hask]
          split
          · -- The next name is tried at the instant at which the context was found not done.
            rename_i hgoes
            have hdone : cx.isDone (w.after m es).cancellations (w.after m es).now = false := by
              rw [Trial.goesOn, Trial.answeredIn, Bool.and_eq_true] at hgoes
              simpa using hgoes.2
            exact hname.append hdone (ih _ _)
          · exact hname
      · rw [tryAll, bind_of_halts hask he]
        exact hname

end Search

namespace Stub

variable {s : Stub}

theorem query_asksNothing (cx : Context) (target : Target) (server : Server) (type : RecordType) :
    Obeys (Only fun d => ¬ d.IsQuestion) (s.query cx target server type) := by
  intro w
  rw [query_apply]
  obtain ⟨es, hes, h⟩ :=
    Query.run_events s.network (s.messageId w) s.config cx target server type w
  rw [hes]
  intro x hx ⟨network, host, hasked⟩
  rcases List.mem_cons.mp hx with rfl | hx
  · cases hasked
  · exact absurd hasked (Query.deed_ne_of_contact (h x hx) nofun nofun)

theorem sorts_asksNothing (source : Address → Option Address) :
    Sorts source (Only fun d => ¬ d.IsQuestion) where
  toComposes := only_composes _
  probes h _ hx := fun ⟨_, _, hasked⟩ => absurd hasked (h.deed_ne hx nofun)
  disorder h _ _ hx := fun ⟨_, _, hasked⟩ => absurd hasked (h.deed_ne hx nofun)

theorem resolver_asksNothing (cx : Context) (network host : String) :
    Obeys (Only fun d => ¬ d.IsQuestion) (s.resolver cx network host) :=
  resolver_follows (sorts_asksNothing s.source) (query_asksNothing cx) network host

theorem search_asksInTime (cx : Context) (network host : String) (w : World) :
    Search.AsksInTime cx w (s.search.resolver cx network host w).events := by
  have hask : ∀ name w, Search.AsksInTime cx w (s.search.ask cx network name w).events := by
    intro name w
    rw [Search.ask_apply]
    exact .single rfl (resolver_asksNothing cx network name w)
  unfold Search.resolver
  cases Family.ofNetwork network host with
  | error f => exact .nil
  | ok family => exact Search.tryAll_asksInTime hask _ _ _ w

theorem probed_passive {es : List Event} (h : Selection.Probes es) :
    ∀ x ∈ es, ¬ x.deed.IsActive := by
  intro x hx hactive
  obtain ⟨a, ha⟩ := h x hx
  rw [ha] at hactive
  cases hactive

theorem admits_actsBefore (source : Address → Option Address) (cx : Context) :
    Admits source (ActsBefore cx cx.deadline) where
  toComposes := actsBefore_composes cx cx.deadline
  probes h x hx hactive := absurd hactive (probed_passive h x hx)
  disorder h _ x hx hactive := absurd hactive (probed_passive h x hx)
  asked _ _ := actsBefore_of_passive nofun

theorem admits_actsInTime (source : Address → Option Address) (timeout : Nat) :
    Admits source (ActsInTime timeout) where
  toComposes := actsInTime_composes timeout
  probes h := actsInTime_of_passive (probed_passive h)
  disorder h _ := actsInTime_of_passive (probed_passive h)
  asked network name w := by
    apply actsInTime_of_passive
    intro x hx
    cases List.mem_singleton.mp hx
    exact nofun

theorem query_actsBefore (cx : Context) (target : Target) (server : Server) (type : RecordType) :
    Obeys (ActsBefore cx cx.deadline) (s.query cx target server type) := by
  intro w
  rw [query_apply]
  exact Query.run_actsBefore _ _ _ cx target server type w

theorem query_actsInTime (cx : Context) (target : Target) (server : Server) (type : RecordType) :
    Obeys (ActsInTime s.config.timeout) (s.query cx target server type) := by
  intro w
  rw [query_apply]
  exact Query.run_actsInTime _ _ _ cx target server type w

/-- The instants from which connections are neither made nor written to: the deadline, each
cancellation of the context, and, for what a query does, the end of that query's time. -/
structure Quits (s : Stub) (cx : Context) (w : World) (es : List Event) : Prop where
  deadline : ∀ d, cx.deadline = some d → ∀ x ∈ es, x.deed.IsActive → x.time < d
  cancelled : ∀ c ∈ w.cancellations, c.id ∈ cx.token.lineage →
    ∀ x ∈ es, x.deed.IsActive → x.time < c.time
  timeout : 0 < s.config.timeout → ∀ before x behind, es = before ++ x :: behind →
    x.deed.IsActive → ∃ first y rest, before = first ++ y :: rest ∧ y.deed.IsQuery ∧
      (∀ z ∈ rest, ¬ z.deed.IsQuery) ∧ x.time < y.time + s.config.timeout

theorem quits_of_laws {cx : Context} {lookup : Activity Answer}
    (hbefore : Obeys (ActsBefore cx cx.deadline) lookup)
    (hintime : Obeys (ActsInTime s.config.timeout) lookup) (w : World) :
    Quits s cx w (lookup w).events := by
  refine ⟨?_, ?_, ?_⟩
  · intro d hd x hx hactive
    apply Nat.lt_of_not_le
    intro hle
    rw [← Clock.comesBy_some_iff, ← hd] at hle
    exact hbefore w x hx hactive hle.earlier_right
  · intro c hc ht x hx hactive
    apply Nat.lt_of_not_le
    intro hle
    exact hbefore w x hx hactive ((Token.comesBy_cancelTime hc ht).mono hle).earlier_left
  · intro hp before x behind hsplit hactive
    obtain ⟨first, y, rest, hy, hquery, hrest, hlt⟩ := hintime w before x behind hsplit hactive
    exact ⟨first, y, rest, hy, hquery, hrest, hlt hp⟩

/-- Whatever the network does, a lookup makes no connection and writes to none from the instant on
at which its context is done, or the time of the query that would do so is over. A lookup by a
search list passes on no further question, either, from when a candidate fails with the context
done. -/
theorem lookups_quit (s : Stub) (cx : Context) (network host : String) (w : World) :
    Quits s cx w (s.resolver cx network host w).events ∧
      Quits s cx w (s.search.resolver cx network host w).events ∧
      ∀ before x behind, (s.search.resolver cx network host w).events = before ++ x :: behind →
        x.deed.IsQuestion → before ≠ [] → cx.isDone w.cancellations x.time = false := by
  refine ⟨?_, ?_, ?_⟩
  · exact quits_of_laws
      (resolver_obeys (admits_actsBefore s.source cx) (query_actsBefore cx) network host)
      (resolver_obeys (admits_actsInTime s.source _) (query_actsInTime cx) network host) w
  · exact quits_of_laws
      (search_obeys (admits_actsBefore s.source cx) (query_actsBefore cx) network host)
      (search_obeys (admits_actsInTime s.source _) (query_actsInTime cx) network host) w
  · intro before x behind hsplit hx hne
    rcases search_asksInTime cx network host w before x behind hsplit hx with ⟨hnil, _⟩ | hdone
    · exact absurd hnil hne
    · exact hdone

end Stub

end HostLookup
