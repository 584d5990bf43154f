import HostLookup.Proofs.Config.Grammar

/-!
How large the numbers of a configuration get. Every number comes from a text, where it has 64 bits;
the timeout counts whole seconds.
-/
set_option autoImplicit false

namespace HostLookup.Config

open Text

/-- The numbers of a configuration are ones that a text can give. -/
structure Bounded (c : Config) : Prop where
  ndots : c.ndots < valueBound
  timeout : ∃ seconds < valueBound, c.timeout = seconds * 1000

theorem bounded_initial : Bounded initial := ⟨by decide, 5, by decide, rfl⟩

theorem exists_of_mem_forall₂ {α β : Type} {R : α → β → Prop} {as : List α} {bs : List β} {b : β}
    (h : List.Forall₂ R as bs) (hb : b ∈ bs) : ∃ a ∈ as, R a b := by
  induction h with
  | nil => cases hb
  | @cons a b as bs hab _ ih =>
    rcases List.mem_cons.mp hb with rfl | hb
    · exact ⟨a, List.mem_cons_self, hab⟩
    · obtain ⟨a, ha, hab⟩ := ih hb
      exact ⟨a, List.mem_cons_of_mem _ ha, hab⟩

theorem value_lt_of_statement {line : List Char} {st : Statement} {name : String} {n : Nat}
    (h : Says line st) (hn : (name, some n) ∈ st.settings) : n < valueBound := by
  cases h with
  | options _ hsets =>
    obtain ⟨w, _, hw⟩ := exists_of_mem_forall₂ hsets hn
    cases hw with
    | valued _ hvalue =>
      obtain ⟨_, _, _, _, _, hlt⟩ := hvalue
      exact hlt
  | _ => cases hn

theorem mem_of_lastValue? {name : String} {settings : List Setting} {n : Nat}
    (h : lastValue? name settings = some n) : (name, some n) ∈ settings := by
  obtain ⟨s, hs, hn⟩ := List.mem_filterMap.mp (List.mem_of_getLast? h)
  split at hn
  · rename_i hname
    rwa [← hname, ← hn]
  · cases hn

theorem lastValue?_lt {text : List (List Char)} {sts : List Statement} {name : String} {n : Nat}
    (h : List.Forall₂ Says text sts)
    (hn : lastValue? name (sts.flatMap Statement.settings) = some n) : n < valueBound := by
  obtain ⟨st, hst, hmem⟩ := List.mem_flatMap.mp (mem_of_lastValue? hn)
  obtain ⟨line, _, hmeans⟩ := exists_of_mem_forall₂ h hst
  exact value_lt_of_statement hmeans hmem

theorem Bounded.read {c d : Config} {text : List Char} (hc : Bounded c)
    (h : c.read (encode text) = d.done) : Bounded d := by
  obtain ⟨sts, hsts, rfl⟩ := exists_says_of_read h
  constructor
  · change (lastValue? "ndots" (sts.flatMap Statement.settings)).getD c.ndots < valueBound
    cases hn : lastValue? "ndots" (sts.flatMap Statement.settings) with
    | none => exact hc.ndots
    | some n => exact lastValue?_lt hsts hn
  · change ∃ seconds < valueBound,
      ((lastValue? "timeout" (sts.flatMap Statement.settings)).map (· * 1000)).getD c.timeout =
        seconds * 1000
    cases hn : lastValue? "timeout" (sts.flatMap Statement.settings) with
    | none => exact hc.timeout
    | some n => exact ⟨n, lastValue?_lt hsts hn, rfl⟩

end HostLookup.Config
