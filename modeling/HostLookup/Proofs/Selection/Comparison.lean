import HostLookup.Proofs.Selection.Policies
import Mathlib.Data.Prod.Lex
import Mathlib.Order.WithBot
import Mathlib.Order.Compare

/-!
How candidates compare. All rules but the last one compare a grade; the last one compares the
common beginnings of those that have one. Swapping two candidates reverses the result, and being
preferred is transitive. Being equally good is not: a candidate whose source is of the other family
is as good as all of its grade, but these need not be as good as each other.
-/
set_option autoImplicit false

namespace HostLookup

open OrderDual

theorem cmp_toLex {α β : Type} [LinearOrder α] [LinearOrder β] (a c : α) (b d : β) :
    cmp (toLex (a, b)) (toLex (c, d)) = (cmp a c).then (cmp b d) := by
  rcases lt_trichotomy a c with h | rfl | h
  · rw [h.cmp_eq_lt]
    exact (Prod.Lex.toLex_lt_toLex.mpr (.inl h)).cmp_eq_lt
  · have hlt : ∀ {b d : β}, b < d → toLex (a, b) < toLex (a, d) := fun h =>
      Prod.Lex.toLex_lt_toLex.mpr (.inr ⟨rfl, h⟩)
    rw [cmp_self_eq_eq]
    rcases lt_trichotomy b d with h | rfl | h
    · rw [h.cmp_eq_lt, (hlt h).cmp_eq_lt]
      rfl
    · rw [cmp_self_eq_eq, cmp_self_eq_eq]
      rfl
    · rw [h.cmp_eq_gt, (hlt h).cmp_eq_gt]
      rfl
  · rw [h.cmp_eq_gt]
    exact (Prod.Lex.toLex_lt_toLex.mpr (.inl h)).cmp_eq_gt

theorem cmp_coe {α : Type} [LinearOrder α] (a b : α) :
    cmp (a : WithTop α) (b : WithTop α) = cmp a b := by
  simp [cmp, cmpUsing, WithTop.coe_lt_coe]

namespace Candidate

/-- What the rules before the last one look at, in their order: that the scopes of destination and
source differ, that their labels differ, the precedence, of which the higher one is preferred, and
the scope of the destination. -/
abbrev Grade := Bool ×ₗ Bool ×ₗ ℕᵒᵈ ×ₗ ℕ

def gradeFrom (a s : Address) : Grade :=
  toLex (a.scope != s.scope, toLex (a.policy.label != s.policy.label,
    toLex (toDual a.policy.precedence, a.scope)))

/-- The grade of a candidate; those without a source have the worst one. -/
def grade (c : Candidate) : WithTop Grade :=
  match c.source with
  | some s => gradeFrom c.destination s
  | none => ⊤

/-- The number of leading bits, of the first 64, that an IPv6 destination has in common with its
IPv6 source. -/
def lead? (c : Candidate) : Option Nat :=
  match c.destination, c.source with
  | .v6 a, some (.v6 s) => some (V6.commonLead s a)
  | _, _ => none

/-- Destination and source are of different families. -/
def IsMixed (c : Candidate) : Prop := ∃ s, c.source = some s ∧ s.isV4 ≠ c.destination.isV4

/-- The last rule prefers more bits in common, if both candidates have a number of them. -/
def compareLead : Option Nat → Option Nat → Ordering
  | some m, some n => cmp n m
  | _, _ => .eq

theorem cmp_not (p q : Bool) : cmp (!p) (!q) = preferring p q := by
  revert p q
  decide

theorem byAgreement_eq (a s b t : Address) :
    byAgreement a s b t = compareLead (lead? ⟨a, some s⟩) (lead? ⟨b, some t⟩) := by
  match a, s, b, t with
  | .v6 a, .v6 s, .v6 b, .v6 t =>
    rw [byAgreement, agreement_networkBits, agreement_networkBits]
    exact (cmp_eq_compare _ _).symm
  | .v4 _, _, _, _ => rfl
  | .v6 _, .v4 _, _, _ => rfl
  | .v6 _, .v6 _, .v4 _, _ => rfl
  | .v6 _, .v6 _, .v6 _, .v4 _ => rfl

theorem compareReachable_eq (a s b t : Address) :
    compareReachable a s b t =
      (cmp (gradeFrom a s) (gradeFrom b t)).then
        (compareLead (lead? ⟨a, some s⟩) (lead? ⟨b, some t⟩)) := by
  rw [compareReachable, byAgreement_eq]
  have hprecedence : cmp (toDual a.policy.precedence) (toDual b.policy.precedence) =
      cmp b.policy.precedence a.policy.precedence := cmp_toDual _ _
  unfold gradeFrom bne
  rw [cmp_toLex, cmp_toLex, cmp_toLex, cmp_not, cmp_not, hprecedence, cmp_eq_compare,
    cmp_eq_compare, Ordering.then_assoc, Ordering.then_assoc, Ordering.then_assoc]

theorem compare_eq (x y : Candidate) :
    x.compare y = (cmp x.grade y.grade).then (compareLead x.lead? y.lead?) := by
  obtain ⟨a, _ | s⟩ := x
  · obtain ⟨b, _ | t⟩ := y
    · rw [grade, grade, cmp_self_eq_eq]
      cases a <;> rfl
    · rw [grade, grade, (WithTop.coe_lt_top (gradeFrom b t)).cmp_eq_gt]
      rfl
  · obtain ⟨b, _ | t⟩ := y
    · rw [grade, grade, (WithTop.coe_lt_top (gradeFrom a s)).cmp_eq_lt]
      rfl
    · refine (compareReachable_eq a s b t).trans ?_
      rw [← cmp_coe]
      rfl

theorem compareLead_swap (m n : Option Nat) : compareLead n m = (compareLead m n).swap := by
  match m, n with
  | some m, some n => exact (cmp_swap n m).symm
  | none, none => rfl
  | none, some _ => rfl
  | some _, none => rfl

theorem compareLead_lt_iff {m n : Option Nat} :
    compareLead m n = .lt ↔ ∃ i j, m = some i ∧ n = some j ∧ j < i := by
  match m, n with
  | some m, some n =>
    rw [compareLead, cmp_eq_lt_iff]
    simp
  | none, _ => simp [compareLead]
  | some _, none => simp [compareLead]

theorem compareLead_eq_iff {m n : Option Nat} :
    compareLead m n = .eq ↔ ∀ i j, m = some i → n = some j → i = j := by
  match m, n with
  | some m, some n =>
    rw [compareLead, cmp_eq_eq_iff]
    simp [eq_comm]
  | none, _ => simp [compareLead]
  | some _, none => simp [compareLead]

theorem compare_swap (x y : Candidate) : y.compare x = (x.compare y).swap := by
  rw [compare_eq, compare_eq, Ordering.swap_then, cmp_swap, compareLead_swap]

theorem compare_eq_lt_iff {x y : Candidate} :
    x.compare y = .lt ↔ x.grade < y.grade ∨
      x.grade = y.grade ∧ ∃ m n, x.lead? = some m ∧ y.lead? = some n ∧ n < m := by
  rw [compare_eq, Ordering.then_eq_lt, cmp_eq_lt_iff, cmp_eq_eq_iff, compareLead_lt_iff]

theorem compare_eq_eq_iff {x y : Candidate} :
    x.compare y = .eq ↔
      x.grade = y.grade ∧ ∀ m n, x.lead? = some m → y.lead? = some n → m = n := by
  rw [compare_eq, Ordering.then_eq_eq, cmp_eq_eq_iff, compareLead_eq_iff]

theorem compare_lt_trans {x y z : Candidate} (hxy : x.compare y = .lt) (hyz : y.compare z = .lt) :
    x.compare z = .lt := by
  rw [compare_eq_lt_iff] at hxy hyz ⊢
  rcases hxy with hxy | ⟨hxy, m, n, hm, hn, hnm⟩
  · rcases hyz with hyz | ⟨hyz, _⟩
    · exact .inl (hxy.trans hyz)
    · exact .inl (hyz ▸ hxy)
  · rcases hyz with hyz | ⟨hyz, n', k, hn', hk, hkn⟩
    · exact .inl (hxy ▸ hyz)
    · rw [hn] at hn'
      cases hn'
      exact .inr ⟨hxy.trans hyz, m, k, hm, hk, hkn.trans hnm⟩

theorem lead_eq_of_gradeFrom_eq {a s : V6} {b t : V4}
    (h : gradeFrom (.v6 a) (.v6 s) = gradeFrom (.v4 b) (.v4 t)) : V6.commonLead s a = 64 := by
  simp only [gradeFrom, toLex_inj, Prod.mk.injEq, toDual_inj, Address.policy_v4] at h
  obtain ⟨_, hlabel, hprecedence, _⟩ := h
  -- The precedence tells that `a` stands for an IPv4 address, and then the label that `s` does.
  have ha : Policy.of a = .mapped := Policy.eq_mapped_of_precedence (Policy.of_mem a) hprecedence
  have hs : (Policy.of s).label = 4 := by
    simp only [Address.policy, Address.toV6, ha, bne_self_eq_false, bne_eq_false_iff_eq] at hlabel
    exact hlabel.symm
  exact V6.commonLead_of_mapped (Policy.eq_mapped_of_label (Policy.of_mem s) hs) ha

theorem lead?_eq_some_iff {c : Candidate} {n : Nat} : c.lead? = some n ↔
    ∃ a s, c = ⟨.v6 a, some (.v6 s)⟩ ∧ V6.commonLead s a = n := by
  obtain ⟨_ | a, _ | _ | s⟩ := c <;> simp [lead?]

theorem grade_of_lead?_eq_none {c : Candidate} (hc : ¬ c.IsMixed) (hn : c.lead? = none) :
    c.grade = ⊤ ∨ ∃ b t, c.grade = gradeFrom (.v4 b) (.v4 t) := by
  obtain ⟨b | b, _ | t | t⟩ := c
  · exact .inl rfl
  · exact .inr ⟨b, t, rfl⟩
  · exact absurd ⟨_, rfl, nofun⟩ hc
  · exact .inl rfl
  · exact absurd ⟨_, rfl, nofun⟩ hc
  · cases hn

theorem lead_eq_of_grade_eq {x y : Candidate} {n : Nat} (h : x.grade = y.grade)
    (hy : ¬ y.IsMixed) (hn : y.lead? = none) (hx : x.lead? = some n) : n = 64 := by
  obtain ⟨a, s, rfl, rfl⟩ := lead?_eq_some_iff.mp hx
  rcases grade_of_lead?_eq_none hy hn with hgrade | ⟨b, t, hgrade⟩
  · rw [hgrade] at h
    cases h
  · rw [hgrade] at h
    exact lead_eq_of_gradeFrom_eq (WithTop.coe_inj.mp h)

/-- The candidate in the middle is mixed, and the outer two have different numbers of bits in common
with their sources. -/
def Straddles (x y z : Candidate) : Prop :=
  y.IsMixed ∧ ∃ m n, x.lead? = some m ∧ z.lead? = some n ∧ m ≠ n

theorem compare_eq_trans_iff {x y z : Candidate} (hxy : x.compare y = .eq)
    (hyz : y.compare z = .eq) : x.compare z = .eq ↔ ¬ Straddles x y z := by
  rw [compare_eq_eq_iff] at hxy hyz ⊢
  obtain ⟨hxy, hm⟩ := hxy
  obtain ⟨hyz, hn⟩ := hyz
  constructor
  · rintro ⟨_, h⟩ ⟨_, m, n, hxm, hzn, hne⟩
    exact hne (h m n hxm hzn)
  · intro h
    refine ⟨hxy.trans hyz, fun m n hxm hzn => ?_⟩
    cases hy : y.lead? with
    | some k => exact (hm m k hxm hy).trans (hn k n hy hzn)
    | none =>
      by_cases hmixed : y.IsMixed
      · by_contra hne
        exact h ⟨hmixed, m, n, hxm, hzn, hne⟩
      · rw [lead_eq_of_grade_eq hxy hmixed hy hxm, lead_eq_of_grade_eq hyz.symm hmixed hy hzn]

/-- Swapping the candidates reverses the result, and being preferred is transitive. So is being
equally good, except where the candidate in the middle is mixed and the last rule tells the outer
two apart. -/
theorem compare_preorder (x y z : Candidate) :
    y.compare x = (x.compare y).swap ∧
    (x.compare y = .lt → y.compare z = .lt → x.compare z = .lt) ∧
    (x.compare y = .eq → y.compare z = .eq → (x.compare z = .eq ↔ ¬ Straddles x y z)) :=
  ⟨compare_swap x y, compare_lt_trans, compare_eq_trans_iff⟩

/-- With the sources `2002::1`, `192.0.2.1` and `2002::1` the destination `2a00::2` is as good as
`2a00::1` and as `2003::1`, of which the second one is preferred. -/
theorem compare_preorder_straddling :
    let s : Address := .v6 ⟨0x2002, 0, 0, 0, 0, 0, 0, 1⟩
    let x : Candidate := ⟨.v6 ⟨0x2a00, 0, 0, 0, 0, 0, 0, 1⟩, some s⟩
    let y : Candidate := ⟨.v6 ⟨0x2a00, 0, 0, 0, 0, 0, 0, 2⟩, some (.v4 ⟨192, 0, 2, 1⟩)⟩
    let z : Candidate := ⟨.v6 ⟨0x2003, 0, 0, 0, 0, 0, 0, 1⟩, some s⟩
    x.compare y = .eq ∧ y.compare z = .eq ∧ x.compare z = .gt ∧ Straddles x y z := by
  intro s x y z
  have hxy : x.compare y = .eq := by decide +kernel
  have hyz : y.compare z = .eq := by decide +kernel
  have hxz : x.compare z = .gt := by decide +kernel
  have hiff := (compare_preorder x y z).2.2 hxy hyz
  refine ⟨hxy, hyz, hxz, ?_⟩
  by_contra hnot
  rw [hiff.mpr hnot] at hxz
  cases hxz

end Candidate

end HostLookup
