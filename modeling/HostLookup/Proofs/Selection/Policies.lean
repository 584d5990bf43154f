import HostLookup.Proofs.Selection.Agreement

/-!
The policies of addresses. Every address has a policy of the table whose network it belongs to, and
the one of the addresses that stand for IPv4 addresses is known by its precedence or by its label.
-/
set_option autoImplicit false

namespace HostLookup

namespace Policy

theorem contains_fallback (v : V6) : fallback.contains v = true := by
  have hzero : ∀ u : V6, leading 0 u = 0 := fun u => by
    rw [leading, Nat.shiftRight_eq_div_pow]
    exact Nat.div_eq_of_lt u.value_lt
  rw [contains, beq_iff_eq]
  exact (hzero v).trans (hzero _).symm

theorem of_mem (v : V6) : Policy.of v ∈ table := by
  unfold Policy.of
  cases h : table.find? fun p => p.contains v with
  | none => simp [table]
  | some p => exact List.mem_of_find?_eq_some h

theorem contains_of (v : V6) : (Policy.of v).contains v = true := by
  unfold Policy.of
  cases h : table.find? fun p => p.contains v with
  | none => exact contains_fallback v
  | some p => simpa using List.find?_some h

/-- The policy of the addresses that stand for IPv4 addresses. -/
def mapped : Policy := ⟨⟨0, 0, 0, 0, 0, 0xffff, 0, 0⟩, 96, 35, 4⟩

theorem eq_mapped_of_precedence {p : Policy} (hp : p ∈ table) (h : p.precedence = 35) :
    p = mapped := by
  revert p
  decide

theorem eq_mapped_of_label {p : Policy} (hp : p ∈ table) (h : p.label = 4) : p = mapped := by
  revert p
  decide

theorem value_ofV4 (a : V4) : ∃ n < 2 ^ 32, (V6.ofV4 a).value = 0xffff * 2 ^ 32 + n := by
  have hhigh := (joinOctets a.a a.b).toNat_lt
  have hlow := (joinOctets a.c a.d).toNat_lt
  refine ⟨(joinOctets a.a a.b).toNat * 65536 + (joinOctets a.c a.d).toNat, by omega, ?_⟩
  simp only [V6.value, V6.groups, V6.ofV4, List.foldl_cons, List.foldl_nil, UInt16.toNat_ofNat]
  omega

/-- The policy of the loopback address, which goes before all others. -/
def loopback : Policy := ⟨⟨0, 0, 0, 0, 0, 0, 0, 1⟩, 128, 50, 0⟩

theorem of_ofV4 (a : V4) : Policy.of (.ofV4 a) = mapped := by
  obtain ⟨n, hn, hvalue⟩ := value_ofV4 a
  have hloopback : ¬ loopback.contains (.ofV4 a) = true := by
    have hone : loopback.network.value = 1 := by decide
    rw [contains, leading, leading, hvalue, hone, beq_iff_eq, Nat.shiftRight_eq_div_pow,
      Nat.shiftRight_eq_div_pow]
    simp only [loopback]
    omega
  have hmapped : mapped.contains (.ofV4 a) = true := by
    have hnetwork : mapped.network.value = 0xffff * 2 ^ 32 := by decide
    rw [contains, leading, leading, hvalue, hnetwork, beq_iff_eq, Nat.shiftRight_eq_div_pow,
      Nat.shiftRight_eq_div_pow]
    simp only [mapped]
    omega
  have htable : table = loopback :: mapped :: table.drop 2 := rfl
  rw [Policy.of, htable,
    List.find?_cons_of_neg (p := fun p : Policy => p.contains (.ofV4 a)) hloopback,
    List.find?_cons_of_pos (p := fun p : Policy => p.contains (.ofV4 a)) hmapped,
    Option.getD_some]

end Policy

@[simp] theorem Address.policy_v4 (a : V4) : (Address.v4 a).policy = .mapped := Policy.of_ofV4 a

/-- IPv6 addresses that are treated like IPv4 addresses have all of their network bits in common. -/
theorem V6.commonLead_of_mapped {v w : V6} (hv : Policy.of v = .mapped)
    (hw : Policy.of w = .mapped) : commonLead v w = 64 := by
  have hcontains := Policy.contains_of v
  have hcontains' := Policy.contains_of w
  rw [hv] at hcontains
  rw [hw] at hcontains'
  exact commonLead_of_contains (by decide) (by decide) hcontains hcontains'

end HostLookup
