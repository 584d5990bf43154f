import HostLookup.Proofs.Context.Genealogy

/-!
Where the tokens and contexts of a genealogy come from. Each token is a root or a child of one with
a lower number, and each context has a token that there is and is new or made from one with a lower
number. Tokens so form trees: one that is below another one is not above it, too, and what is below
a token is also below those that it descends from.
-/
set_option autoImplicit false

namespace HostLookup

namespace Genealogy

variable {g h : Genealogy} {k n : Nat} {m : Member} {cx : Context} {t u : Token}
  {op : Operation} {ops : List Operation}

/-- How the token with a number came about. -/
inductive TokenFrom (g : Genealogy) (n : Nat) : Token → Prop where
  | root : TokenFrom g n (.root n)
  | child {k : Nat} {t : Token} : k < n → g.tokens[k]? = some t → TokenFrom g n (t.child n)

/-- How the context with a number came about. -/
inductive MemberFrom (g : Genealogy) (k : Nat) : Member → Prop where
  | new {n : Nat} {t : Token} : g.tokens[n]? = some t → MemberFrom g k ⟨.ofToken t, none⟩
  | change {parent : Nat} {c : Change} {time : Nat} {cx cx' : Context} : parent < k →
      g.context? parent = some cx → Yields g.tokens time cx c cx' →
      MemberFrom g k ⟨cx', some ⟨parent, c, time⟩⟩

structure Sound (g : Genealogy) : Prop where
  token : ∀ {n t}, g.tokens[n]? = some t → TokenFrom g n t
  member : ∀ {k m}, g.members[k]? = some m → MemberFrom g k m
  past : ∀ c ∈ g.cancellations, c.time ≤ g.now

theorem Yields.mono {tokens tokens' : List Token} {now : Nat} {c : Change} {cx cx' : Context}
    (hc : Yields tokens now cx c cx') (htokens : tokens <+: tokens') :
    Yields tokens' now cx c cx' := by
  cases hc with
  | clone => exact .clone
  | deadline time => exact .deadline time
  | timeout hrange => exact .timeout hrange
  | token ht => exact .token (getElem?_of_isPrefix htokens ht)

theorem TokenFrom.later (ht : TokenFrom g n t) (hl : Later g h) : TokenFrom h n t := by
  cases ht with
  | root => exact .root
  | child hk hp => exact .child hk (hl.token hp)

theorem MemberFrom.later (hm : MemberFrom g k m) (hl : Later g h) : MemberFrom h k m := by
  cases hm with
  | new ht => exact .new (hl.token ht)
  | change hk hcx hc => exact .change hk (hl.context hcx) (hc.mono hl.tokens)

theorem lt_length_of_context? (hcx : g.context? k = some cx) : k < g.members.length := by
  obtain ⟨origin, hm⟩ := context?_eq_some_iff.mp hcx
  exact (List.getElem?_eq_some_iff.mp hm).1

theorem getElem?_concat_eq_some {α : Type} {l : List α} {a b : α} {n : Nat}
    (h : (l ++ [a])[n]? = some b) : l[n]? = some b ∨ n = l.length ∧ b = a := by
  rcases Nat.lt_trichotomy n l.length with hlt | rfl | hgt
  · rw [List.getElem?_append_left hlt] at h
    exact .inl h
  · rw [List.getElem?_concat_length] at h
    exact .inr ⟨rfl, (Option.some.inj h).symm⟩
  · rw [List.getElem?_append_right (Nat.le_of_lt hgt), List.getElem?_singleton,
      if_neg (Nat.sub_ne_zero_of_lt hgt)] at h
    cases h

namespace Sound

theorem initial : Sound initial where
  token ht := by simp [Genealogy.initial] at ht
  member hm := by simp [Genealogy.initial] at hm
  past c hc := nomatch hc

theorem addToken (hg : Sound g) (hu : TokenFrom g g.fresh u) : Sound (g.addToken u) where
  token ht := by
    have hl := Later.addToken g u
    rcases getElem?_concat_eq_some ht with ht | ⟨rfl, rfl⟩
    · exact (hg.token ht).later hl
    · exact hu.later hl
  member hm := (hg.member hm).later (Later.addToken g u)
  past := hg.past

theorem addContext {o : Option Origin} (hg : Sound g)
    (hm : MemberFrom g g.members.length ⟨cx, o⟩) : Sound (g.addContext cx o) where
  token ht := (hg.token ht).later (Later.addContext g cx o)
  member hk := by
    have hl := Later.addContext g cx o
    rcases getElem?_concat_eq_some hk with hk | ⟨rfl, rfl⟩
    · exact (hg.member hk).later hl
    · exact hm.later hl
  past := hg.past

theorem steps (hg : Sound g) (hs : Steps g op h) : Sound h := by
  have hl := Later.of_steps hs
  cases hs with
  | newContext => exact (hg.addToken .root).addContext (.new List.getElem?_concat_length)
  | change hcx hc => exact hg.addContext (.change (lt_length_of_context? hcx) hcx hc)
  | newToken => exact hg.addToken .root
  | childToken ht => exact hg.addToken (.child (List.getElem?_eq_some_iff.mp ht).1 ht)
  | cancel ht =>
    refine ⟨fun ht => (hg.token ht).later hl, fun hm => (hg.member hm).later hl, ?_⟩
    exact List.forall_mem_append.mpr
      ⟨hg.past, List.forall_mem_singleton.mpr (Nat.le_refl g.now)⟩
  | sleep duration =>
    refine ⟨fun ht => (hg.token ht).later hl, fun hm => (hg.member hm).later hl, ?_⟩
    exact fun c hc => Nat.le_trans (hg.past c hc) hl.now_le

theorem run (hg : Sound g) (hrun : g.run? ops = some h) : Sound h :=
  run?_induction (R := fun g h => Sound g → Sound h) (fun _ hg => hg)
    (fun hs hk hg => hk (hg.steps hs)) hrun hg

/-! ### Trees of tokens -/

theorem token_id (hg : Sound g) (ht : g.tokens[n]? = some t) : t.id = n := by
  cases hg.token ht with
  | root => rfl
  | child => rfl

theorem getElem?_token (hg : Sound g) (ht : t ∈ g.tokens) : g.tokens[t.id]? = some t := by
  obtain ⟨n, ht⟩ := List.mem_iff_getElem?.mp ht
  rwa [hg.token_id ht]

theorem token_unique (hg : Sound g) (ht : t ∈ g.tokens) (hu : u ∈ g.tokens) (hid : t.id = u.id) :
    t = u := by
  have hu := hg.getElem?_token hu
  rw [← hid] at hu
  exact Option.some.inj ((hg.getElem?_token ht).symm.trans hu)

theorem ancestors_lt (hg : Sound g) (ht : g.tokens[n]? = some t) : ∀ a ∈ t.ancestors, a < n := by
  induction n using Nat.strongRecOn generalizing t with
  | ind n ih =>
    intro a ha
    cases hg.token ht with
    | root => cases ha
    | child hk hp =>
      rcases List.mem_cons.mp ha with rfl | ha
      · rwa [hg.token_id hp]
      · exact Nat.lt_trans (ih _ hk hp a ha) hk

/-- A token is not cancelled by the ones below it. -/
theorem id_notMem_lineage (hg : Sound g) (ht : t ∈ g.tokens) (hu : u ∈ g.tokens)
    (hbelow : u.id ∈ t.ancestors) : t.id ∉ u.lineage := by
  have hlt : u.id < t.id := hg.ancestors_lt (hg.getElem?_token ht) _ hbelow
  intro hmem
  rcases List.mem_cons.mp hmem with heq | hmem
  · omega
  · have := hg.ancestors_lt (hg.getElem?_token hu) _ hmem
    omega

/-- What cancels a token also cancels those below it. -/
theorem lineage_subset (hg : Sound g) (ht : g.tokens[n]? = some t) (hu : u ∈ g.tokens)
    (hmem : u.id ∈ t.lineage) : u.lineage ⊆ t.lineage := by
  induction n using Nat.strongRecOn generalizing t with
  | ind n ih =>
    rcases List.mem_cons.mp hmem with hid | hbelow
    · rw [hg.token_unique hu (List.mem_of_getElem? ht) hid]
      exact List.Subset.refl _
    · -- What is above a token, but not the token itself, is its parent or above that.
      cases hg.token ht with
      | root => cases hbelow
      | child hk hp => exact List.subset_cons_of_subset _ (ih _ hk hp hbelow)

/-- The token of a context is one of the genealogy. -/
theorem token_mem (hg : Sound g) (hcx : g.context? k = some cx) : cx.token ∈ g.tokens := by
  induction k using Nat.strongRecOn generalizing cx with
  | ind k ih =>
    obtain ⟨origin, hm⟩ := context?_eq_some_iff.mp hcx
    cases hg.member hm with
    | new ht => exact List.mem_of_getElem? ht
    | change hk hparent hc =>
      have hmem := ih _ hk hparent
      cases hc with
      | clone => exact hmem
      | deadline time => exact hmem
      | timeout => exact hmem
      | token ht => exact List.mem_of_getElem? ht

end Sound

end Genealogy

end HostLookup
