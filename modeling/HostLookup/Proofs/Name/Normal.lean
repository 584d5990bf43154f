import HostLookup.Config.SearchList
import HostLookup.Proofs.Name.Hosts
import HostLookup.Proofs.Text.Cutting
import Mathlib.Data.List.DropRight

/-!
The form in which search lists keep names. Putting a name in lower case leaves it a name, whatever
is escaped in it. Taking the dots from its end does so, too, unless the first of them was escaped:
what is left ends in a backslash then, and is no name.
-/
set_option autoImplicit false

namespace HostLookup

theorem toLower_cases (c : Char) :
    c.toLower = c ∨ 65 ≤ c.toNat ∧ c.toNat ≤ 90 ∧ c.toLower.toNat = c.toNat + 32 := by
  unfold Char.toLower
  split
  · rename_i h
    have hlow : 65 ≤ c.toNat := h.1
    have hhigh : c.toNat ≤ 90 := h.2
    refine .inr ⟨hlow, hhigh, ?_⟩
    change (c.val + 32).toNat = c.val.toNat + 32
    rw [UInt32.toNat_add]
    change c.val.toNat ≤ 90 at hhigh
    change (c.val.toNat + 32) % 4294967296 = _
    omega
  · exact .inl rfl

/-- Only letters change when put in lower case, and become letters. -/
theorem toLower_eq_iff {c d : Char} (hd : d.toNat < 65 ∨ 90 < d.toNat ∧ d.toNat < 97) :
    c.toLower = d ↔ c = d := by
  rcases toLower_cases c with h | ⟨hlow, hhigh, h⟩
  · rw [h]
  · constructor
    · rintro rfl
      omega
    · rintro rfl
      omega

theorem toLower_toLower (c : Char) : c.toLower.toLower = c.toLower := by
  rcases toLower_cases c.toLower with h | ⟨hlow, hhigh, _⟩
  · exact h
  · rcases toLower_cases c with h | ⟨hlow', hhigh', h⟩
    · rw [h, h]
    · omega

theorem isBlank_toLower {c : Char} (h : Text.isBlank c = false) :
    Text.isBlank c.toLower = false := by
  rcases toLower_cases c with hc | ⟨hlow, hhigh, hc⟩
  · rwa [hc]
  · unfold Text.isBlank
    rw [hc]
    simp
    omega

theorem toLower_of_isDigit {c : Char} (h : c.isDigit = true) : c.toLower = c := by
  obtain ⟨_, hhigh⟩ := Char.isDigit_iff_toNat.mp h
  change c.toNat ≤ 57 at hhigh
  exact (toLower_cases c).resolve_right fun hletter => by omega

theorem isDigit_toLower {c : Char} (h : c.isDigit = false) : c.toLower.isDigit = false := by
  rcases toLower_cases c with hc | ⟨hlow, hhigh, hc⟩
  · rwa [hc]
  · apply eq_false_of_ne_true
    intro hdigit
    obtain ⟨_, hle⟩ := Char.isDigit_iff_toNat.mp hdigit
    change c.toLower.toNat ≤ 57 at hle
    omega

namespace DomainName

theorem isPrintable_toLower {c : Char} (h : isPrintable c = true) :
    isPrintable c.toLower = true := by
  rcases toLower_cases c with hc | ⟨hlow, hhigh, hc⟩
  · rwa [hc]
  · unfold isPrintable
    rw [hc]
    simp
    omega

variable {s : Symbol} {w cs : List Char} {ss : List Symbol} {name : DomainName}

theorem Symbol.Written.toLower (h : s.Written w) :
    ∃ t : Symbol, s.Like t ∧ t.Written (w.map Char.toLower) := by
  cases h with
  | separator => exact ⟨_, .separator, .separator⟩
  | plain hc hdot hbackslash =>
    rw [ne_eq, ← toLower_eq_iff (by decide)] at hdot hbackslash
    exact ⟨_, .octet _ _, .plain (isPrintable_toLower hc) hdot hbackslash⟩
  | escaped hc hdigit hbracket =>
    rw [ne_eq, ← toLower_eq_iff (by decide)] at hbracket
    exact ⟨_, .octet _ _, .escaped (isPrintable_toLower hc) (isDigit_toLower hdigit) hbracket⟩
  | bracket => exact ⟨_, .bracket, .bracket⟩
  | @numbered c d e n hn =>
    have hdigits := isDigit_of_numeral hn
    have hsame : [c, d, e].map Char.toLower = [c, d, e] := by
      conv => rhs; rw [← List.map_id [c, d, e]]
      exact List.map_congr_left fun b hb => toLower_of_isDigit (hdigits b hb)
    rw [List.map_cons, hsame]
    exact ⟨_, .octet _ _, .numbered hn⟩

theorem Spelling.toLower (h : Spelling ss cs) :
    ∃ ts, List.Forall₂ Symbol.Like ss ts ∧ Spelling ts (cs.map Char.toLower) := by
  induction h with
  | nil => exact ⟨[], .nil, .nil⟩
  | cons hs _ ih =>
    obtain ⟨t, hlike, ht⟩ := hs.toLower
    obtain ⟨ts, hlikes, hts⟩ := ih
    rw [List.map_append]
    exact ⟨t :: ts, .cons hlike hlikes, .cons ht hts⟩

theorem Names.toLower (h : Names cs name) : ∃ lower, Names (cs.map Char.toLower) lower := by
  cases h with
  | root => exact ⟨_, .root⟩
  | labels hspelling hne hls =>
    obtain ⟨ts, hlike, hts⟩ := hspelling.toLower
    obtain ⟨ms, hms⟩ := hls.like hlike rfl
    refine ⟨⟨ms⟩, .labels hts ?_ hms⟩
    rintro rfl
    cases hlike
    exact hne rfl

theorem endsOpen_map_toLower (cs : List Char) : endsOpen (cs.map Char.toLower) = endsOpen cs := by
  fun_induction endsOpen cs with
  | case1 => rfl
  | case2 => rfl
  | case3 c cs ih => exact ih
  | case4 c cs hlast hescape ih =>
    have hc : c.toLower ≠ '\\' :=
      (toLower_eq_iff (by decide)).not.mpr (ne_backslash hlast hescape)
    rw [List.map_cons, endsOpen_cons hc, ih]

/-- The characters of a text without dots at its end. -/
def undotted (cs : List Char) : List Char := cs.rdropWhile (· == '.')

theorem undotted_concat_dot (cs : List Char) : undotted (cs ++ ['.']) = undotted cs :=
  List.rdropWhile_concat_pos _ _ _ rfl

theorem undotted_of_getLast? {c : Char} (h : cs.getLast? = some c) (hc : c ≠ '.') :
    undotted cs = cs := by
  apply List.rdropWhile_eq_self_iff.mpr
  intro hne
  rw [List.getLast?_eq_some_getLast hne] at h
  rw [Option.some.inj h, beq_iff_eq]
  exact hc

/-- Without the dots at its end, a name is the same name, unless the first of them was escaped. -/
theorem Names.undotted (h : Names cs name) (hne : undotted cs ≠ [])
    (hopen : endsOpen (undotted cs) = false) : Names (undotted cs) name := by
  induction cs using List.reverseRecOn with
  | nil => exact absurd rfl hne
  | append_singleton cs c ih =>
    by_cases hc : c = '.'
    · subst hc
      rw [undotted_concat_dot] at hne hopen ⊢
      have hcs : cs ≠ [] := by
        rintro rfl
        exact hne rfl
      have hclosed : endsOpen cs = false := by
        apply eq_false_of_ne_true
        intro hescapes
        rw [undotted_of_getLast? (getLast?_of_endsOpen hescapes) (by decide), hescapes] at hopen
        cases hopen
      exact ih (h.of_concat_dot hcs hclosed) hne hopen
    · rwa [undotted_of_getLast? List.getLast?_concat hc]

end DomainName

namespace SearchList

open DomainName

variable {name : String}

theorem toList_normalize (name : String) :
    (normalize name).toList = (undotted name.toList).map Char.toLower := String.toList_ofList

theorem toLower_eq_dot_iff (c : Char) : c.toLower = '.' ↔ c = '.' := toLower_eq_iff (by decide)

theorem undotted_normalize (name : String) :
    undotted (normalize name).toList = (normalize name).toList := by
  rw [toList_normalize]
  apply List.rdropWhile_eq_self_iff.mpr
  intro hne
  rw [List.getLast_map, beq_iff_eq, toLower_eq_dot_iff, ← beq_iff_eq]
  exact List.rdropWhile_last_not (· == '.') name.toList _

theorem normalize_normalize (name : String) : normalize (normalize name) = normalize name := by
  apply String.toList_inj.mp
  rw [toList_normalize, undotted_normalize, toList_normalize, List.map_map]
  exact List.map_congr_left fun c _ => toLower_toLower c

/-- The normal form of a name is a name just if it does not end in a backslash without another one
before it, and if anything is left. -/
theorem isSome_normalize_iff (h : (ofString? name).isSome) (hne : normalize name ≠ "") :
    (ofString? (normalize name)).isSome ↔ endsOpen (normalize name).toList = false := by
  obtain ⟨n, hn⟩ := Option.isSome_iff_exists.mp h
  constructor
  · intro hkept
    obtain ⟨m, hm⟩ := Option.isSome_iff_exists.mp hkept
    exact (ofString?_eq_some_iff.mp hm).endsOpen_eq_false
  · intro hopen
    rw [toList_normalize, endsOpen_map_toLower] at hopen
    have hleft : undotted name.toList ≠ [] := by
      intro hnil
      apply hne
      apply String.toList_inj.mp
      rw [toList_normalize, hnil]
      rfl
    obtain ⟨lower, hlower⟩ := ((ofString?_eq_some_iff.mp hn).undotted hleft hopen).toLower
    rw [← toList_normalize, ← ofString?_eq_some_iff] at hlower
    rw [hlower]
    rfl

theorem endsOpen_normalize_of_notMem (h : '\\' ∉ name.toList) :
    endsOpen (normalize name).toList = false := by
  rw [toList_normalize, endsOpen_map_toLower]
  exact endsOpen_of_notMem fun hmem => h ((List.rdropWhile_prefix _ _).subset hmem)

/-- The normal form of a word is a word, unless nothing is left. -/
theorem isWord_normalize (h : ∀ c ∈ name.toList, Text.isBlank c = false)
    (hne : normalize name ≠ "") : Text.IsWord (normalize name).toList := by
  constructor
  · exact fun hnil => hne (String.toList_inj.mp hnil)
  · rw [toList_normalize]
    intro c hc
    obtain ⟨d, hd, rfl⟩ := List.mem_map.mp hc
    exact isBlank_toLower (h d ((List.rdropWhile_prefix _ _).subset hd))

end SearchList

end HostLookup
