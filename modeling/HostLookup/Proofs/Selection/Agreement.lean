import HostLookup.Selection.Preference
import Mathlib.Data.Nat.Find
import Mathlib.Data.Nat.Bitwise

/-!
The common beginning of two addresses, as bits and as numbers. Among their first 64 bits, two
addresses agree on the most bits that make the same number. Addresses of one network agree on all
the bits of the network.
-/
set_option autoImplicit false

namespace HostLookup

namespace V6

/-- The number of leading bits, of the first 64, that two addresses have in common. -/
def commonLead (v w : V6) : Nat :=
  Nat.findGreatest (fun n => Policy.leading n v = Policy.leading n w) 64

theorem testBit_join (n : Nat) (g : UInt16) (i : Nat) :
    (n * 65536 + g.toNat).testBit i = if i < 16 then g.toNat.testBit i else n.testBit (i - 16) := by
  have h := Nat.testBit_two_pow_mul_add n g.toNat_lt i
  rwa [Nat.mul_comm] at h

theorem testBit_foldl (gs : List UInt16) (n i : Nat) :
    (gs.foldl (fun n g => n * 65536 + g.toNat) n).testBit (16 * gs.length + i) = n.testBit i := by
  induction gs generalizing n i with
  | nil => simp
  | cons g gs ih =>
    have hi : 16 * (g :: gs).length + i = 16 * gs.length + (i + 16) := by
      rw [List.length_cons]
      omega
    rw [List.foldl_cons, hi, ih, testBit_join, if_neg (by omega), Nat.add_sub_cancel]

theorem value_lt (v : V6) : v.value < 2 ^ 128 := by
  have h0 := v.g0.toNat_lt
  have h1 := v.g1.toNat_lt
  have h2 := v.g2.toNat_lt
  have h3 := v.g3.toNat_lt
  have h4 := v.g4.toNat_lt
  have h5 := v.g5.toNat_lt
  have h6 := v.g6.toNat_lt
  have h7 := v.g7.toNat_lt
  simp only [value, groups, List.foldl_cons, List.foldl_nil]
  omega

theorem groupBits_eq {v : V6} {gs hs : List UInt16} {g : UInt16} (h : v.groups = gs ++ g :: hs) :
    groupBits g =
      (List.range 16).map fun i => v.value.testBit (16 * hs.length + (15 - i)) := by
  refine List.map_congr_left fun i _ => ?_
  rw [value, h, List.foldl_append, List.foldl_cons, testBit_foldl, testBit_join,
    if_pos (by omega)]

theorem networkBits_eq (v : V6) :
    v.networkBits = (List.range 64).map fun i => v.value.testBit (127 - i) := by
  have h0 : v.groups = [] ++ v.g0 :: [v.g1, v.g2, v.g3, v.g4, v.g5, v.g6, v.g7] := rfl
  have h1 : v.groups = [v.g0] ++ v.g1 :: [v.g2, v.g3, v.g4, v.g5, v.g6, v.g7] := rfl
  have h2 : v.groups = [v.g0, v.g1] ++ v.g2 :: [v.g3, v.g4, v.g5, v.g6, v.g7] := rfl
  have h3 : v.groups = [v.g0, v.g1, v.g2] ++ v.g3 :: [v.g4, v.g5, v.g6, v.g7] := rfl
  rw [networkBits, List.flatMap_cons, List.flatMap_cons, List.flatMap_cons, List.flatMap_cons,
    groupBits_eq h0, groupBits_eq h1, groupBits_eq h2, groupBits_eq h3]
  rfl

theorem leading_eq_iff {v w : V6} {n : Nat} (hn : n ≤ 128) :
    Policy.leading n v = Policy.leading n w ↔
      ∀ i < n, v.value.testBit (127 - i) = w.value.testBit (127 - i) := by
  constructor
  · intro h i hi
    have hbit := congrArg (fun m => Nat.testBit m (n - 1 - i)) h
    simp only [Policy.leading, Nat.testBit_shiftRight] at hbit
    rwa [show 128 - n + (n - 1 - i) = 127 - i by omega] at hbit
  · intro h
    apply Nat.eq_of_testBit_eq
    intro j
    simp only [Policy.leading, Nat.testBit_shiftRight]
    by_cases hj : j < n
    · have hbit := h (n - 1 - j) (by omega)
      rwa [show 127 - (n - 1 - j) = 128 - n + j by omega] at hbit
    · have hhigh : ∀ u : V6, u.value.testBit (128 - n + j) = false := fun u =>
        Nat.testBit_lt_two_pow
          (Nat.lt_of_lt_of_le u.value_lt (Nat.pow_le_pow_right (by decide) (by omega)))
      rw [hhigh v, hhigh w]

end V6

theorem le_agreement_iff {as bs : List Bool} (hlen : as.length = bs.length) {n : Nat}
    (hn : n ≤ as.length) : n ≤ agreement as bs ↔ ∀ i < n, as[i]? = bs[i]? := by
  induction as generalizing bs n with
  | nil =>
    obtain rfl : n = 0 := Nat.le_zero.mp hn
    simp
  | cons a as ih =>
    cases bs with
    | nil => cases hlen
    | cons b bs =>
      cases n with
      | zero => simp
      | succ n =>
        have hhere : (∀ i < n + 1, (a :: as)[i]? = (b :: bs)[i]?) ↔
            a = b ∧ ∀ i < n, as[i]? = bs[i]? := by
          rw [Nat.forall_lt_succ_left]
          simp only [List.getElem?_cons_zero, List.getElem?_cons_succ, Option.some.injEq]
        rw [agreement, hhere]
        split
        · rename_i hab
          rw [Nat.succ_le_succ_iff, ih (Nat.succ.inj hlen) (Nat.le_of_succ_le_succ hn)]
          exact (and_iff_right hab).symm
        · rename_i hab
          exact ⟨fun h => absurd h (by omega), fun h => absurd h.1 hab⟩

theorem agreement_le (as bs : List Bool) : agreement as bs ≤ as.length := by
  fun_induction agreement as bs with
  | case1 => simpa
  | case2 => simp
  | case3 => simp

/-- What bits in common are counted are the leading bits that make the same number. -/
theorem agreement_networkBits (v w : V6) :
    agreement v.networkBits w.networkBits = V6.commonLead v w := by
  have hlength : ∀ u : V6, u.networkBits.length = 64 := fun u => by simp [V6.networkBits_eq]
  have hiff : ∀ n ≤ 64, n ≤ agreement v.networkBits w.networkBits ↔
      Policy.leading n v = Policy.leading n w := by
    intro n hn
    rw [le_agreement_iff (by rw [hlength, hlength]) (by rwa [hlength]),
      V6.leading_eq_iff (by omega)]
    refine forall₂_congr fun i hi => ?_
    have hi : i < 64 := by omega
    simp [V6.networkBits_eq, hi]
  have hle : agreement v.networkBits w.networkBits ≤ 64 := by
    have := agreement_le v.networkBits w.networkBits
    rwa [hlength] at this
  apply Nat.le_antisymm
  · exact Nat.le_findGreatest hle ((hiff _ hle).mp (Nat.le_refl _))
  · have hmost : V6.commonLead v w ≤ 64 := Nat.findGreatest_le 64
    refine (hiff _ hmost).mpr ?_
    exact Nat.findGreatest_spec (P := fun n => Policy.leading n v = Policy.leading n w)
      (Nat.zero_le 64) ((hiff 0 (by omega)).mp (Nat.zero_le _))

namespace V6

/-- Addresses of a network that fixes at least the first 64 bits have all of them in common. -/
theorem commonLead_of_contains {p : Policy} {v w : V6} (hp : 64 ≤ p.length) (hp' : p.length ≤ 128)
    (hv : p.contains v = true) (hw : p.contains w = true) : commonLead v w = 64 := by
  have hsame : Policy.leading p.length v = Policy.leading p.length w := by
    rw [Policy.contains, beq_iff_eq] at hv hw
    rw [hv, hw]
  apply Nat.le_antisymm (Nat.findGreatest_le 64)
  refine Nat.le_findGreatest (Nat.le_refl 64) ((leading_eq_iff (by omega)).mpr fun i hi => ?_)
  exact (leading_eq_iff hp').mp hsame i (by omega)

end V6

end HostLookup
