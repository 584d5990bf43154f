import HostLookup.Proofs.Selection.Policies
import Mathlib.Data.List.TakeDrop
import Mathlib.Data.List.Induction

/-!
The networks of the policy table. An address belongs to a network if its bits begin with the leading
bits of the network. Of all networks in the table that an address belongs to, the one whose policy
is found is the longest, and there is always one. Comparing under masks of 128 bits finds the same
networks, and no mask is shifted by more than there is room for.
-/
set_option autoImplicit false

namespace HostLookup

namespace V6

/-- All bits of an address, the highest one first. -/
def bits (v : V6) : List Bool := v.groups.flatMap groupBits

/-- An address as a word. -/
def word (v : V6) : BitVec 128 := .ofNat 128 v.value

theorem flatMap_groupBits (gs : List UInt16) :
    gs.flatMap groupBits = (List.range (16 * gs.length)).map fun i =>
      (gs.foldl (fun n (g : UInt16) => n * 65536 + g.toNat) 0).testBit
        (16 * gs.length - 1 - i) := by
  induction gs using List.reverseRecOn with
  | nil => rfl
  | append_singleton gs g ih =>
    have hlength : 16 * (gs ++ [g]).length = 16 * gs.length + 16 := by
      rw [List.length_append, List.length_singleton]
      omega
    rw [hlength, List.range_add, List.map_append, List.flatMap_append, ih, List.flatMap_singleton,
      List.foldl_append, List.foldl_cons, List.foldl_nil, List.map_map]
    congr 1
    · apply List.map_congr_left
      intro i hi
      rw [List.mem_range] at hi
      rw [testBit_join, if_neg (by omega)]
      congr 1
      omega
    · apply List.map_congr_left
      intro i hi
      rw [List.mem_range] at hi
      rw [Function.comp_apply, testBit_join, if_pos (by omega)]
      congr 1
      omega

theorem bits_eq (v : V6) : v.bits = (List.range 128).map fun i => v.value.testBit (127 - i) :=
  flatMap_groupBits v.groups

theorem take_bits (v : V6) {n : Nat} (hn : n ≤ 128) :
    v.bits.take n = (List.range n).map fun i => v.value.testBit (127 - i) := by
  rw [bits_eq, ← List.map_take, List.take_range, Nat.min_eq_left hn]

theorem getLsbD_word (v : V6) (i : Nat) : v.word.getLsbD i = v.value.testBit i := by
  rw [word, BitVec.getLsbD_ofNat]
  by_cases hi : i < 128
  · simp [hi]
  · have hlt : v.value < 2 ^ i :=
      Nat.lt_of_lt_of_le v.value_lt (Nat.pow_le_pow_right (by decide) (by omega))
    simp [hi, Nat.testBit_lt_two_pow hlt]

end V6

namespace Policy

variable {p q : Policy} {v : V6}

/-- An address belongs to the network of a policy. -/
def Covers (p : Policy) (v : V6) : Prop := p.network.bits.take p.length <+: v.bits

theorem covers_iff (hp : p.length ≤ 128) : p.Covers v ↔ p.contains v = true := by
  have hlength : (p.network.bits.take p.length).length = p.length := by
    rw [p.network.take_bits hp, List.length_map, List.length_range]
  rw [Covers, List.prefix_iff_eq_take, hlength, p.network.take_bits hp, v.take_bits hp,
    List.map_inj_left, contains, beq_iff_eq, V6.leading_eq_iff hp]
  simp only [List.mem_range, eq_comm]

theorem length_le (hp : p ∈ table) : p.length ≤ 128 := by
  revert p
  decide

theorem table_sorted : table.Pairwise fun p q => q.length < p.length ∨
    q.length = p.length ∧ leading p.length p.network ≠ leading p.length q.network := by
  decide

/-- A policy of the table whose network is the longest of those that an address belongs to. -/
structure IsLongest (p : Policy) (v : V6) : Prop where
  mem : p ∈ table
  covers : p.Covers v
  longer : ∀ q ∈ table, q.Covers v → q ≠ p → q.length < p.length

theorem isLongest_of_find? (h : (table.find? fun p => p.contains v) = some p) :
    p.IsLongest v := by
  obtain ⟨hp, before, behind, htable, hbefore⟩ := List.find?_eq_some_iff_append.mp h
  have hmem : p ∈ table := List.mem_of_find?_eq_some h
  refine ⟨hmem, (covers_iff (length_le hmem)).mpr hp, ?_⟩
  intro q hq hcovers hne
  have hcontains : q.contains v = true := (covers_iff (length_le hq)).mp hcovers
  rw [htable, List.mem_append, List.mem_cons] at hq
  rcases hq with hq | hq | hq
  · have hnone := hbefore q hq
    rw [hcontains] at hnone
    cases hnone
  · exact absurd hq hne
  · have hsorted := table_sorted
    rw [htable] at hsorted
    have hrest := (List.pairwise_append.mp hsorted).2.1
    rcases List.rel_of_pairwise_cons hrest hq with hlt | ⟨hlength, hdiffer⟩
    · exact hlt
    · -- Networks of one length have no address in common.
      rw [contains, beq_iff_eq] at hp hcontains
      rw [hlength] at hcontains
      exact absurd (hp.symm.trans hcontains) hdiffer

theorem find?_eq_of (v : V6) : (table.find? fun p => p.contains v) = some (Policy.of v) := by
  unfold Policy.of
  cases h : table.find? fun p => p.contains v with
  | some p => rfl
  | none =>
    have hnone := List.find?_eq_none.mp h fallback (by decide)
    exact absurd (contains_fallback v) hnone

/-- The ones of a mask for the leading bits of a word; nothing if the word would be shifted out of
range. -/
def mask? (length : Nat) : Option (BitVec 128) :=
  if length ≤ 128 ∧ 128 - length < 128 then some (BitVec.allOnes 128 <<< (128 - length)) else none

/-- Whether an address is that of the network under the network's mask. All addresses belong to the
network of length 0, which has no mask. -/
def covers? (p : Policy) (v : V6) : Option Bool :=
  if p.length = 0 then some true
  else (mask? p.length).map fun mask => v.word &&& mask == p.network.word

theorem mask?_eq_some {n : Nat} (hpos : 0 < n) (hn : n ≤ 128) :
    mask? n = some (BitVec.allOnes 128 <<< (128 - n)) := if_pos ⟨hn, by omega⟩

theorem getLsbD_mask (n i : Nat) : (BitVec.allOnes 128 <<< (128 - n)).getLsbD i =
    decide (i < 128 ∧ 128 - n ≤ i) := by
  rw [BitVec.getLsbD_shiftLeft, BitVec.getLsbD_allOnes]
  by_cases hi : i < 128 <;> by_cases hn : 128 - n ≤ i <;> simp [hi, hn]
  omega

/-- A network without bits behind its leading ones has the same addresses under its mask. -/
theorem masked_eq_iff {n : Nat} {w : V6} (hn : n ≤ 128)
    (hlow : ∀ i < 128 - n, w.value.testBit i = false) :
    v.word &&& (BitVec.allOnes 128 <<< (128 - n)) = w.word ↔ leading n v = leading n w := by
  rw [V6.leading_eq_iff hn]
  constructor
  · intro h i hi
    have hbit := congrArg (fun x => BitVec.getLsbD x (127 - i)) h
    simp only [BitVec.getLsbD_and, getLsbD_mask, V6.getLsbD_word] at hbit
    rwa [decide_eq_true (by omega), Bool.and_true] at hbit
  · intro h
    apply BitVec.eq_of_getLsbD_eq
    intro j hj
    rw [BitVec.getLsbD_and, getLsbD_mask, V6.getLsbD_word, V6.getLsbD_word]
    by_cases hhigh : 128 - n ≤ j
    · have hbit := h (127 - j) (by omega)
      rw [show 127 - (127 - j) = j by omega] at hbit
      rw [hbit, decide_eq_true ⟨hj, hhigh⟩, Bool.and_true]
    · rw [decide_eq_false (by omega), Bool.and_false, hlow j (by omega)]

theorem testBit_network (hp : p ∈ table) : ∀ i < 128 - p.length,
    p.network.value.testBit i = false := by
  have hall : ∀ p ∈ table, p.network.value % 2 ^ (128 - p.length) = 0 := by decide
  intro i hi
  have hbit := Nat.testBit_mod_two_pow p.network.value (128 - p.length) i
  rw [hall p hp, Nat.zero_testBit, decide_eq_true hi, Bool.true_and] at hbit
  exact hbit.symm

theorem covers?_eq (hp : p ∈ table) (v : V6) : p.covers? v = some (p.contains v) := by
  unfold covers?
  by_cases hzero : p.length = 0
  · have hfallback : ∀ p ∈ table, p.length = 0 → p = fallback := by decide
    rw [if_pos hzero, hfallback p hp hzero, contains_fallback]
  · rw [if_neg hzero, mask?_eq_some (by omega) (length_le hp), Option.map_some, contains]
    congr 1
    rw [Bool.eq_iff_iff, beq_iff_eq, beq_iff_eq]
    exact masked_eq_iff (length_le hp) (testBit_network hp)

/-- The policy of an address is the first one in the table for it, so that none is missing, and it
is that of the longest network. Each network can be told by its mask, which is in range. An IPv4
address has the scope, the precedence and the label of the IPv6 address that stands for it. -/
theorem isLongest_of (v : V6) (a : V4) :
    (table.find? fun p => p.contains v) = some (Policy.of v) ∧ (Policy.of v).IsLongest v ∧
      (∀ p ∈ table, p.covers? v = some (p.contains v)) ∧
      (Address.v6 (.ofV4 a)).scope = (Address.v4 a).scope ∧
      (Address.v6 (.ofV4 a)).policy.precedence = (Address.v4 a).policy.precedence ∧
      (Address.v6 (.ofV4 a)).policy.label = (Address.v4 a).policy.label := by
  have hfound := find?_eq_of v
  refine ⟨hfound, isLongest_of_find? hfound, fun p hp => covers?_eq hp v, ?_, rfl, rfl⟩
  rw [Address.scope, Address.scope, V6.scope, V6.toV4?_ofV4]

/-- The networks of the loopback address, the longest one first. -/
example : (table.filter fun p => p.contains loopback.network).map Policy.length = [128, 96, 0] := by
  decide

end Policy

end HostLookup
