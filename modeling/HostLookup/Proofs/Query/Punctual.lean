import HostLookup.Proofs.Query.Conduct

/-!
When connections are made and written to. Guarded work does so only before it would be cut off: it
is not started at the cut-off, and what it would have done from then on is left out. So a query
neither makes a connection nor writes to one once its context is done or its own time is over.
-/
set_option autoImplicit false

namespace HostLookup

open Activity
open Clock (ComesBy)

/-- A connection is made, or octets can be written to it. -/
inductive Deed.IsActive : Deed → Prop where
  | dialed (transport : Transport) (server : Endpoint) : IsActive (.dialed transport server)
  | shook : IsActive .shook
  | sent (os : Octets) : IsActive (.sent os)

/-- A query is begun. -/
def Deed.IsQuery (d : Deed) : Prop := ∃ server type, d = .queried server type

namespace Activity

variable {α : Type} {cx : Context} {deadline : Option Nat} {work : Activity α}

/-- Nothing is done after the run. -/
def Punctual : Law := fun w _ n es => ∀ x ∈ es, x.time ≤ w.now + n

theorem punctual_composes : Composes Punctual where
  nothing := by simp [Punctual]
  behind := by
    intro w m es e n fs h h' x hx
    rcases List.mem_append.mp hx with hx | hx
    · have hm := h x hx
      omega
    · have hn := h' x hx
      rw [World.now_after] at hn
      omega

theorem punctual_record (d : Deed) : Obeys Punctual (record d) := by
  intro w x hx
  cases List.mem_singleton.mp hx
  exact Nat.le_add_right _ _

/-- Connections are neither made nor written to once the context cuts work off. -/
def ActsBefore (cx : Context) (deadline : Option Nat) : Law := fun w _ _ es =>
  ∀ x ∈ es, x.deed.IsActive → ¬ ComesBy (cx.cutoff w.cancellations deadline) x.time

theorem actsBefore_composes (cx : Context) (deadline : Option Nat) :
    Composes (ActsBefore cx deadline) where
  nothing := by simp [ActsBefore]
  behind := by
    intro w m es e n fs h h' x hx hactive hcomes
    rcases List.mem_append.mp hx with hx | hx
    · exact h x hx hactive hcomes
    · exact h' x hx hactive (Context.comesBy_cutoff_append hcomes)

theorem actsBefore_of_passive {d : Deed} (h : ¬ d.IsActive) :
    Obeys (ActsBefore cx deadline) (record d) := by
  intro w x hx hactive
  cases List.mem_singleton.mp hx
  exact absurd hactive h

theorem guarded_actsBefore (h : Obeys Punctual work) :
    Obeys (ActsBefore cx deadline) (guarded cx deadline work) := by
  intro w
  have hw := h w
  have hg := guarded_guarding cx deadline work w
  generalize guarded cx deadline work w = r at hg
  cases hg with
  | barred => simp [ActsBefore]
  | finished _ hn =>
    intro x hx _ hcomes
    exact hn (hcomes.mono (hw x hx))
  | cut hc hlt =>
    intro x hx _ hcomes
    rw [hc, Clock.comesBy_some_iff] at hcomes
    have hbefore := of_decide_eq_true (List.mem_filter.mp hx).2
    omega
  | stalled hc _ =>
    intro x _ _ hcomes
    rw [hc] at hcomes
    exact Clock.not_comesBy_none hcomes
  | halted hn _ _ =>
    intro x hx _ hcomes
    exact hn (hcomes.mono (hw x hx))

/-- Connections are made and written to by queries only, and by each of them before its time is
over. -/
def ActsInTime (timeout : Nat) : Law := fun _ _ _ es =>
  ∀ before x behind, es = before ++ x :: behind → x.deed.IsActive →
    ∃ first y rest, before = first ++ y :: rest ∧ y.deed.IsQuery ∧
      (∀ z ∈ rest, ¬ z.deed.IsQuery) ∧ (0 < timeout → x.time < y.time + timeout)

theorem actsInTime_composes (timeout : Nat) : Composes (ActsInTime timeout) where
  nothing := by simp [ActsInTime]
  behind := by
    intro w m es e n fs h h' before x behind hsplit hactive
    -- An event of the second run follows a query of that run, whatever happened before.
    rcases List.append_eq_append_iff.mp hsplit with ⟨as, rfl, hfs⟩ | ⟨bs, hes, hfs⟩
    · obtain ⟨first, y, rest, rfl, hy⟩ := h' as x behind hfs hactive
      exact ⟨es ++ first, y, rest, (List.append_assoc ..).symm, hy⟩
    · cases bs with
      | nil =>
        obtain ⟨first, y, rest, hnil, _⟩ := h' [] x behind hfs.symm hactive
        simp at hnil
      | cons b bs =>
        rw [List.cons_append, List.cons.injEq] at hfs
        obtain ⟨rfl, _⟩ := hfs
        exact h before x bs hes hactive

/-- What does nothing about connections acts in time. -/
theorem actsInTime_of_passive {timeout : Nat} {w : World} {e : Ending Unit} {n : Nat}
    {es : List Event} (h : ∀ x ∈ es, ¬ x.deed.IsActive) : ActsInTime timeout w e n es := by
  intro before x behind hsplit hactive
  exact absurd hactive (h x (hsplit ▸ List.mem_append_right before List.mem_cons_self))

end Activity

namespace Query

variable {cx : Context} {deadline : Option Nat} {server : Endpoint}

theorem permits_punctual : Permits Punctual where
  toComposes := punctual_composes
  sleep _ _ _ hx := nomatch hx
  stall _ _ hx := nomatch hx
  shook := punctual_record _
  sent _ := punctual_record _

theorem talks_actsBefore : Talks (ActsBefore cx deadline) cx deadline server where
  toComposes := actsBefore_composes cx deadline
  shake s a := guarded_actsBefore (shakeHands_obeys permits_punctual s a)
  exchange c r := guarded_actsBefore (Exchange.run_obeys permits_punctual c r)
  replied _ := actsBefore_of_passive nofun

theorem ask_actsBefore (net : Network) (cx : Context) (deadline : Option Nat)
    (protocol : Protocol) (server : Endpoint) (r : Request) :
    Obeys (ActsBefore cx deadline) (ask net cx deadline protocol server r) :=
  ask_obeys talks_actsBefore net protocol r <| guarded_actsBefore <|
    dial_obeys permits_punctual (punctual_record _) net

section Run

variable (net : Network) (id : UInt16) (config : Config) (cx : Context) (target : Target)
variable (s : Server) (type : RecordType)

/-- After the first event of a query, connections are made and written to before its deadline. -/
theorem run_acts {w : World} {x : Event}
    (hx : x ∈ (run net id config cx target s type w).events) (hactive : x.deed.IsActive) :
    ∃ deadline, cx.effectiveDeadline? w.now config.timeout = some deadline ∧
      ¬ ComesBy (cx.cutoff w.cancellations deadline) x.time := by
  cases hd : cx.effectiveDeadline? w.now config.timeout with
  | none =>
    rw [run_of_overflow hd] at hx
    cases List.mem_singleton.mp hx
    cases hactive
  | some deadline =>
    refine ⟨deadline, rfl, ?_⟩
    rw [run_of_deadline hd] at hx
    rcases List.mem_cons.mp hx with rfl | hx
    · cases hactive
    · intro hcomes
      exact answering_obeys (actsBefore_composes cx deadline) (ask_actsBefore net cx deadline _ _ _)
        _ x hx hactive (Context.comesBy_cutoff_append hcomes)

theorem run_actsBefore :
    Obeys (ActsBefore cx cx.deadline) (run net id config cx target s type) := by
  intro w x hx hactive hcomes
  obtain ⟨deadline, hd, hbefore⟩ := run_acts net id config cx target s type hx hactive
  exact hbefore (Context.comesBy_cutoff_of_effective hd hcomes)

theorem run_actsInTime :
    Obeys (ActsInTime config.timeout) (run net id config cx target s type) := by
  intro w before x behind hsplit hactive
  have hx : x ∈ (run net id config cx target s type w).events :=
    hsplit ▸ List.mem_append_right before List.mem_cons_self
  obtain ⟨deadline, hd, hbefore⟩ := run_acts net id config cx target s type hx hactive
  obtain ⟨es, hes, hrest⟩ := run_events net id config cx target s type w
  rw [hes] at hsplit
  cases before with
  | nil =>
    rw [List.nil_append, List.cons.injEq] at hsplit
    obtain ⟨rfl, _⟩ := hsplit
    cases hactive
  | cons b bs =>
    rw [List.cons_append, List.cons.injEq] at hsplit
    obtain ⟨rfl, rfl⟩ := hsplit
    refine ⟨[], _, bs, rfl, ⟨_, _, rfl⟩, ?_, ?_⟩
    · rintro z hz ⟨a, t, hquery⟩
      have hcontact := hrest z (List.mem_append_left _ hz)
      exact absurd hquery (deed_ne_of_contact hcontact nofun nofun)
    · intro hp
      apply Nat.lt_of_not_le
      intro hle
      exact hbefore ((Context.comesBy_cutoff_timeout hd hp).mono hle)

end Run

end Query

end HostLookup
