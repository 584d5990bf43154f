import HostLookup.Proofs.Text.Cutting
import HostLookup.Text.Numeral

/-!
Numerals and numbers. Reading decimal digits gives the number that they stand for, and a number's
digits to any base up to sixteen read back as the number.
-/
set_option autoImplicit false

namespace HostLookup.Text

variable {acc b bound n : Nat} {c : Char} {cs : List Char}

theorem digitValue_of_isDigit (h : c.isDigit = true) : digitValue c = some (c.toNat - 48) := by
  obtain ⟨hlow, hhigh⟩ := Char.isDigit_iff_toNat.mp h
  exact if_pos ⟨hlow, hhigh⟩

theorem isDigit_of_digitValue {d : Nat} (h : digitValue c = some d) (hd : d < 10) :
    c.isDigit = true := by
  unfold digitValue at h
  dsimp only at h
  split at h
  · exact Char.isDigit_iff_toNat.mpr (by assumption)
  · split at h
    · cases h
      omega
    · split at h
      · cases h
        omega
      · cases h

theorem ofDigits_ten_eq_some_iff : ofDigits 10 acc cs = some n ↔
    (∀ c ∈ cs, c.isDigit = true) ∧ Nat.ofDigitChars 10 cs acc = n := by
  induction cs generalizing acc with
  | nil => simp [ofDigits]
  | cons c cs ih =>
    rw [ofDigits, Nat.ofDigitChars_cons, List.forall_mem_cons, and_assoc]
    by_cases hc : c.isDigit = true
    · have hlow : '0'.toNat ≤ c.toNat ∧ c.toNat ≤ '9'.toNat := Char.isDigit_iff_toNat.mp hc
      have hd : c.toNat - 48 < 10 := Nat.lt_succ_of_le (Nat.sub_le_of_le_add hlow.2)
      rw [digitValue_of_isDigit hc]
      dsimp only
      rw [if_pos hd, ih, Nat.mul_comm acc 10]
      exact (and_iff_right hc).symm
    · constructor
      · intro h
        split at h
        · rename_i d hd
          split at h
          · exact absurd (isDigit_of_digitValue hd (by assumption)) hc
          · cases h
        · cases h
      · intro h
        exact absurd h.1 hc

/-- Decimal digits for a number below a bound, with or without a plus sign. -/
def IsNumeral (bound : Nat) (cs : List Char) (n : Nat) : Prop :=
  ∃ digits, (cs = digits ∨ cs = '+' :: digits) ∧ digits ≠ [] ∧
    (∀ c ∈ digits, c.isDigit = true) ∧ Nat.ofDigitChars 10 digits 0 = n ∧ n < bound

theorem numeral_ten_eq_some_iff : numeral 10 bound cs = some n ↔
    cs ≠ [] ∧ (∀ c ∈ cs, c.isDigit = true) ∧ Nat.ofDigitChars 10 cs 0 = n ∧ n < bound := by
  unfold numeral
  split
  · rename_i hnil
    rw [List.isEmpty_iff.mp hnil]
    simp
  · rename_i hne
    rw [Option.filter_eq_some_iff, ofDigits_ten_eq_some_iff, decide_eq_true_iff, and_assoc]
    rw [List.isEmpty_iff] at hne
    exact (and_iff_right hne).symm

theorem signedNumeral_eq_some_iff : signedNumeral bound cs = some n ↔ IsNumeral bound cs n := by
  unfold signedNumeral
  split
  · rename_i digits
    rw [numeral_ten_eq_some_iff]
    constructor
    · exact fun h => ⟨digits, .inr rfl, h⟩
    · rintro ⟨ds, rfl | hds, h⟩
      · exact absurd (h.2.1 '+' List.mem_cons_self) (by decide)
      · cases hds
        exact h
  · rename_i hplus
    rw [numeral_ten_eq_some_iff]
    constructor
    · exact fun h => ⟨cs, .inl rfl, h⟩
    · rintro ⟨ds, rfl | rfl, h⟩
      · exact h
      · exact absurd rfl (hplus ds)

theorem isNumeral_decimal (h : n < bound) : IsNumeral bound (decimal n) n :=
  ⟨decimal n, .inl rfl, Nat.toDigits_ne_nil,
    fun _ hc => Nat.isDigit_of_mem_toDigits (by decide) (by decide) hc,
    Nat.ofDigitChars_ten_toDigits, h⟩

theorem digitValue_digitChar (h : n < 16) : digitValue n.digitChar = some n := by
  have hall : ∀ m < 16, digitValue m.digitChar = some m := by decide
  exact hall n h

theorem ofDigits_toDigits (hb : 1 < b) (hb' : b ≤ 16) (n : Nat) :
    ofDigits b 0 (Nat.toDigits b n) = some n := by
  induction n using Nat.strongRecOn with
  | ind n ih =>
    by_cases hn : n < b
    · rw [Nat.toDigits_of_lt_base hn, ofDigits, digitValue_digitChar (by omega)]
      dsimp only
      rw [if_pos hn, ofDigits, Nat.zero_mul, Nat.zero_add]
    · have hle : b ≤ n := Nat.le_of_not_lt hn
      have hlt : n / b < n := Nat.div_lt_self (by omega) hb
      have hmod : n % b < b := Nat.mod_lt n (by omega)
      rw [Nat.toDigits_of_base_le hb hle, ofDigits_append, ih _ hlt, Option.bind_some, ofDigits,
        digitValue_digitChar (by omega)]
      dsimp only
      rw [if_pos hmod, ofDigits, Nat.div_add_mod']

/-- A number's digits are a numeral for it. -/
theorem numeral_toDigits (hb : 1 < b) (hb' : b ≤ 16) (h : n < bound) :
    numeral b bound (Nat.toDigits b n) = some n := by
  have hne : ¬ (Nat.toDigits b n).isEmpty = true := by simp
  rw [numeral, if_neg hne, ofDigits_toDigits hb hb', Option.filter_some, if_pos (decide_eq_true h)]

/-- The characters of numbers to the base sixteen. -/
theorem digitValue_of_mem_toDigits (hb : 1 < b) (hb' : b ≤ 16) (h : c ∈ Nat.toDigits b n) :
    ∃ d < 16, digitValue c = some d := by
  induction n using Nat.strongRecOn with
  | ind n ih =>
    by_cases hn : n < b
    · rw [Nat.toDigits_of_lt_base hn, List.mem_singleton] at h
      rw [h]
      exact ⟨n, by omega, digitValue_digitChar (by omega)⟩
    · have hlt : n / b < n := Nat.div_lt_self (by omega) hb
      have hmod : n % b < b := Nat.mod_lt n (by omega)
      rw [Nat.toDigits_of_base_le hb (Nat.le_of_not_lt hn), List.mem_append,
        List.mem_singleton] at h
      rcases h with h | rfl
      · exact ih _ hlt h
      · exact ⟨n % b, by omega, digitValue_digitChar (by omega)⟩

theorem isBlank_of_digitValue {c : Char} {d : Nat} (h : digitValue c = some d) :
    isBlank c = false := by
  unfold digitValue at h
  unfold isBlank
  dsimp only at h ⊢
  split at h
  · simp
    omega
  · split at h
    · simp
      omega
    · split at h
      · simp
        omega
      · cases h

theorem isWord_decimal (n : Nat) : IsWord (decimal n) := by
  refine ⟨Nat.toDigits_ne_nil, fun c hc => ?_⟩
  obtain ⟨d, _, hd⟩ := digitValue_of_mem_toDigits (by decide) (by decide) hc
  exact isBlank_of_digitValue hd

end HostLookup.Text
