import HostLookup.Proofs.Context.Ancestry

/-!
What contexts inherit. However contexts and tokens are made from each other, the deadline of a
context is the earliest one of those applied on the way to it. A context that is done stays so, and
so are the ones made from it, as long as they keep its token or get one below it. Cancelling a token
does nothing to contexts that have one above it.
-/
set_option autoImplicit false

namespace HostLookup

namespace Genealogy

variable {f g g' h : Genealogy} {i k n id : Nat} {cx cx' : Context} {t : Token} {ds : List Nat}
  {op : Operation} {ops more : List Operation}

/-- The deadlines applied to a context and to those that it was made from, the last one first. -/
inductive Applied (g : Genealogy) : Nat → List Nat → Prop where
  | new {k : Nat} {cx : Context} : g.members[k]? = some ⟨cx, none⟩ → Applied g k []
  | change {k parent : Nat} {c : Change} {time : Nat} {cx : Context} {ds : List Nat} :
      g.members[k]? = some ⟨cx, some ⟨parent, c, time⟩⟩ → Applied g parent ds →
      Applied g k (c.deadlines time ++ ds)

/-- A context and those made from it by changes other than of the token, or by giving it its own
token or one below. -/
inductive Heir (g : Genealogy) (i : Nat) : Nat → Prop where
  | self : Heir g i i
  | kept {k parent : Nat} {c : Change} {time : Nat} {cx : Context} : Heir g i parent →
      g.members[k]? = some ⟨cx, some ⟨parent, c, time⟩⟩ → (∀ n, c ≠ .token n) → Heir g i k
  | child {k parent n time : Nat} {cx cx' : Context} : Heir g i parent →
      g.context? parent = some cx →
      g.members[k]? = some ⟨cx', some ⟨parent, .token n, time⟩⟩ →
      cx.token.id ∈ cx'.token.lineage → Heir g i k

/-! ### Deadlines -/

theorem context?_of_member {origin : Option Origin} (hm : g.members[k]? = some ⟨cx, origin⟩) :
    g.context? k = some cx :=
  context?_eq_some_iff.mpr ⟨origin, hm⟩

theorem Yields.deadline_eq {tokens : List Token} {now : Nat} {c : Change}
    (hc : Yields tokens now cx c cx') (hd : cx.deadline = ds.min?) :
    cx'.deadline = (c.deadlines now ++ ds).min? := by
  cases hc with
  | clone => exact hd
  | deadline time =>
    rw [Context.withDeadline, hd]
    exact Clock.earlier_min? ds time
  | timeout =>
    rw [Context.withDeadline, hd]
    exact Clock.earlier_min? ds _
  | token => exact hd

theorem Applied.deadline_eq (hg : Sound g) (ha : g.Applied k ds) (hcx : g.context? k = some cx) :
    cx.deadline = ds.min? := by
  induction ha generalizing cx with
  | new hm =>
    obtain rfl := Option.some.inj (hcx.symm.trans (context?_of_member hm))
    cases hg.member hm with
    | new => rfl
  | change hm _ ih =>
    obtain rfl := Option.some.inj (hcx.symm.trans (context?_of_member hm))
    cases hg.member hm with
    | change _ hparent hc => exact hc.deadline_eq (ih hparent)

theorem Sound.exists_applied (hg : Sound g) (hcx : g.context? k = some cx) :
    ∃ ds, g.Applied k ds := by
  induction k using Nat.strongRecOn generalizing cx with
  | ind k ih =>
    obtain ⟨origin, hm⟩ := context?_eq_some_iff.mp hcx
    cases hg.member hm with
    | new => exact ⟨[], .new hm⟩
    | change hk hparent =>
      obtain ⟨ds, ha⟩ := ih _ hk hparent
      exact ⟨_, .change hm ha⟩

/-! ### Heirs -/

theorem Yields.binds {tokens : List Token} {now : Nat} {c : Change}
    (hc : Yields tokens now cx c cx') (hkept : ∀ n, c ≠ .token n) : cx.Binds cx' := by
  cases hc with
  | clone => exact .refl cx
  | deadline time => exact .withDeadline cx time
  | timeout => exact .withDeadline cx _
  | token => exact absurd rfl (hkept _)

theorem Heir.binds (hg : Sound g) (hi : g.context? i = some cx) (hh : g.Heir i k) :
    ∃ cx', g.context? k = some cx' ∧ cx.Binds cx' := by
  induction hh with
  | self => exact ⟨cx, hi, .refl cx⟩
  | kept _ hm hkept ih =>
    obtain ⟨p, hp, hbinds⟩ := ih
    refine ⟨_, context?_of_member hm, ?_⟩
    cases hg.member hm with
    | change _ hparent hc =>
      obtain rfl := Option.some.inj (hp.symm.trans hparent)
      exact hbinds.trans (hc.binds hkept)
  | child _ hp hm hid ih =>
    obtain ⟨p, hp', hbinds⟩ := ih
    obtain rfl := Option.some.inj (hp.symm.trans hp')
    refine ⟨_, context?_of_member hm, ?_⟩
    cases hg.member hm with
    | change _ hparent hc =>
      obtain rfl := Option.some.inj (hp.symm.trans hparent)
      cases hc with
      | token ht => exact hbinds.trans (.withToken (hg.lineage_subset ht (hg.token_mem hp) hid))

theorem Heir.done (hg : Sound g) (hl : Later f g) (hh : g.Heir i k) (hdone : f.Done i) :
    g.Done k := by
  obtain ⟨cx, hcx, hdone⟩ := hdone
  obtain ⟨cx', hcx', hbinds⟩ := hh.binds hg (hl.context hcx)
  exact ⟨cx', hcx', hbinds.isDone hl.cancellations.subset hl.now_le hdone⟩

theorem Sound.isDone_iff (hg : Sound g) : cx.isDone g.cancellations g.now = true ↔
    (∃ c ∈ g.cancellations, c.id ∈ cx.token.lineage) ∨ Clock.ComesBy cx.deadline g.now := by
  rw [Context.isDone_iff_exists]
  refine or_congr_left (exists_congr fun c => and_congr_right fun hc => ?_)
  exact and_iff_left (hg.past c hc)

/-! ### Cancellations -/

/-- The same contexts and tokens at the same time, and the same cancellations of all tokens but one.
-/
structure AlikeBut (id : Nat) (g h : Genealogy) : Prop where
  now : g.now = h.now
  tokens : g.tokens = h.tokens
  members : g.members = h.members
  cancellations : ∀ c, c.id ≠ id → (c ∈ g.cancellations ↔ c ∈ h.cancellations)

namespace AlikeBut

theorem addCancellation (g : Genealogy) (t : Token) :
    AlikeBut t.id g (g.addCancellation t) where
  now := rfl
  tokens := rfl
  members := rfl
  cancellations c hc := by
    rw [Genealogy.addCancellation, List.mem_append, List.mem_singleton]
    refine (or_iff_left ?_).symm
    rintro rfl
    exact hc rfl

/-- What is done next does not depend on cancellations. -/
theorem steps (ha : AlikeBut id g g') (hs : Steps g op h) :
    ∃ h', Steps g' op h' ∧ AlikeBut id h h' := by
  obtain ⟨now, tokens, members, cancellations⟩ := g
  obtain ⟨now', tokens', members', cancellations'⟩ := g'
  obtain ⟨rfl, rfl, rfl, hcs⟩ := ha
  cases hs with
  | newContext => exact ⟨_, .newContext, rfl, rfl, rfl, hcs⟩
  | change hcx hc => exact ⟨_, .change hcx hc, rfl, rfl, rfl, hcs⟩
  | newToken => exact ⟨_, .newToken, rfl, rfl, rfl, hcs⟩
  | childToken ht => exact ⟨_, .childToken ht, rfl, rfl, rfl, hcs⟩
  | cancel ht =>
    refine ⟨_, .cancel ht, rfl, rfl, rfl, fun c hc => ?_⟩
    rw [Genealogy.addCancellation, Genealogy.addCancellation, List.mem_append, List.mem_append]
    exact or_congr_left (hcs c hc)
  | sleep duration => exact ⟨_, .sleep duration, rfl, rfl, rfl, hcs⟩

theorem run (ha : AlikeBut id g g') (hrun : g.run? ops = some h) :
    ∃ h', g'.run? ops = some h' ∧ AlikeBut id h h' := by
  induction ops generalizing g g' with
  | nil =>
    cases hrun
    exact ⟨g', rfl, ha⟩
  | cons op ops ih =>
    obtain ⟨k, hs, hrun⟩ := Option.bind_eq_some_iff.mp hrun
    obtain ⟨k', hs', ha'⟩ := ha.steps (step?_eq_some_iff.mp hs)
    obtain ⟨h', hrun', hh⟩ := ih ha' hrun
    exact ⟨h', (hs'.run?_cons ops).trans hrun', hh⟩

theorem done_iff (ha : AlikeBut id g g') (hcx : g.context? k = some cx)
    (hid : id ∉ cx.token.lineage) : g'.Done k ↔ g.Done k := by
  have hcx' : g'.context? k = some cx := by rw [← hcx, context?, context?, ha.members]
  have hsame : cx.isDone g'.cancellations g'.now = cx.isDone g.cancellations g.now := by
    rw [← ha.now]
    refine Context.isDone_congr fun c hc => (ha.cancellations c ?_).symm
    rintro rfl
    exact hid hc
  simp only [Done, hcx, hcx', Option.some.injEq, exists_eq_left', hsame]

end AlikeBut

/-- Cancelling a token first makes no difference to the contexts that have a token above it. -/
theorem Sound.exists_spared (hf : Sound f) (ht : f.tokens[n]? = some t)
    (hrun : f.run? more = some g) : ∃ g', f.run? (.cancel n :: more) = some g' ∧
      ∀ k cx, g.context? k = some cx → cx.token.id ∈ t.ancestors → (g'.Done k ↔ g.Done k) := by
  obtain ⟨g', hrun', ha⟩ := (AlikeBut.addCancellation f t).run hrun
  refine ⟨g', ((Steps.cancel ht).run?_cons more).trans hrun', ?_⟩
  intro k cx hcx hbelow
  -- Numbers fall on the way up, so that the token is not among those that cancel one above it.
  have hg : Sound g := hf.run hrun
  have htg : t ∈ g.tokens := List.mem_of_getElem? ((Later.of_run hrun).token ht)
  exact ha.done_iff hcx (hg.id_notMem_lineage htg (hg.token_mem hcx) hbelow)

/-! ### Runs -/

/-- What holds of the contexts of `g`, which has become of `f` by `more`. -/
structure Upholds (f : Genealogy) (more : List Operation) (g : Genealogy) : Prop where
  applied : ∀ k cx, g.context? k = some cx → ∃ ds, g.Applied k ds
  /-- The deadline is the earliest one applied on the way to a context. -/
  deadline : ∀ k cx ds, g.context? k = some cx → g.Applied k ds → cx.deadline = ds.min?
  /-- For something that may take a time other than zero, the end of this time counts, too. -/
  effective : ∀ k cx ds, g.context? k = some cx → g.Applied k ds →
    cx.effectiveDeadline? g.now 0 = some ds.min? ∧
      ∀ timeout, 0 < timeout → g.now + timeout < Clock.range →
        cx.effectiveDeadline? g.now timeout = some ((g.now + timeout) :: ds).min?
  /-- A context is done once its token or one above it is cancelled or a deadline is reached. -/
  done_iff : ∀ k cx ds, g.context? k = some cx → g.Applied k ds →
    (g.Done k ↔ (∃ c ∈ g.cancellations, c.id ∈ cx.token.lineage) ∨ ∃ d ∈ ds, d ≤ g.now)
  /-- It stays done, and its heirs are, whether they were made before or after that. -/
  heirs : ∀ i k, f.Done i → g.Heir i k → g.Done k
  /-- Had a token been cancelled in between, this would have made no difference to the contexts
  that have a token above it. -/
  spared : ∀ n t, f.tokens[n]? = some t → ∃ g', f.run? (.cancel n :: more) = some g' ∧
    ∀ k cx, g.context? k = some cx → cx.token.id ∈ t.ancestors → (g'.Done k ↔ g.Done k)

theorem Sound.upholds (hf : Sound f) (hrun : f.run? more = some g) : Upholds f more g := by
  have hg : Sound g := hf.run hrun
  refine ⟨?_, ?_, ?_, ?_, ?_, ?_⟩
  · exact fun k cx => hg.exists_applied
  · exact fun k cx ds hcx ha => ha.deadline_eq hg hcx
  · intro k cx ds hcx ha
    have hd : cx.deadline = ds.min? := ha.deadline_eq hg hcx
    refine ⟨congrArg some hd, fun timeout hp hrange => ?_⟩
    rw [Context.effectiveDeadline?_of_pos hp hrange, hd, Clock.earlier_min?]
  · intro k cx ds hcx ha
    rw [← Clock.comesBy_min?_iff, ← ha.deadline_eq hg hcx, ← hg.isDone_iff]
    simp only [Done, hcx, Option.some.injEq, exists_eq_left']
  · exact fun i k hdone hh => hh.done hg (Later.of_run hrun) hdone
  · exact fun n t ht => hf.exists_spared ht hrun

end Genealogy

end HostLookup
