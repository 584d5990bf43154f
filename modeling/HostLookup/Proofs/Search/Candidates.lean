import HostLookup.Proofs.Name.Hosts
import HostLookup.Proofs.Search.Lookup

/-!
The candidates of a host by the name that it spells. A name is absolute if a separator ends it,
and it has a dot between each two of its labels. The characters of the host tell the same unless
it has escaped dots: one at its end passes for a separator, and every one of them is counted.
-/
set_option autoImplicit false

namespace HostLookup

namespace DomainName

variable {cs : List Char} {ss : List Symbol} {host : String} {name : DomainName}

/-- The host ends in a separator, i.e., in a dot that is not escaped. -/
def isAbsolute (host : String) : Bool :=
  (symbols host.toList).bind List.getLast? == some .separator

theorem Spelling.isAbsolute_iff (h : Spelling ss host.toList) :
    isAbsolute host = true ↔ ss.getLast? = some .separator := by
  rw [isAbsolute, symbols_eq_some_iff.mpr h, beq_iff_eq]
  rfl

theorem endsInDot_of_isAbsolute (h : isAbsolute host = true) : endsInDot host = true := by
  obtain ⟨ss, hss, hlast⟩ := Option.bind_eq_some_iff.mp (beq_iff_eq.mp h)
  apply eq_true_of_ne_false
  intro hdot
  exact (symbols_eq_some_iff.mp hss).getLast?_ne (endsInDot_eq_false_iff.mp hdot) hlast

theorem Symbol.Written.count_le {s : Symbol} {w : List Char} (h : s.Written w) :
    [s].count .separator ≤ w.count '.' := by
  cases h with
  | separator => exact Nat.le_refl 1
  | _ => exact Nat.zero_le _

theorem Spelling.count_le (h : Spelling ss cs) : ss.count .separator ≤ cs.count '.' := by
  induction h with
  | nil => exact Nat.le_refl 0
  | @cons s w ss cs hs _ ih =>
    rw [← List.singleton_append, List.count_append, List.count_append]
    exact Nat.add_le_add hs.count_le ih

/-- The number of dots between the labels of a name. -/
def dots (name : DomainName) : Nat := name.labels.length - 1

/-- The characters of a host have the dots between labels among them. -/
theorem dots_le_count (hname : ofString? host = some name) (h : isAbsolute host = false) :
    name.dots ≤ host.toList.count '.' := by
  have hnames := ofString?_eq_some_iff.mp hname
  generalize htext : host.toList = cs at hnames
  cases hnames with
  | root =>
    rw [isAbsolute, htext] at h
    cases h
  | labels hspelling hne hls =>
    rw [← htext] at hspelling ⊢
    have hlast := hspelling.isAbsolute_iff.not.mp (Bool.not_eq_true _ ▸ h)
    rw [dots, (hls.concat hlast (.inl hne)).length_eq, Nat.add_sub_cancel]
    exact hspelling.count_le

end DomainName

namespace Search

open DomainName

variable {list : SearchList} {ndots : Nat} {host : String} {name : DomainName}

/-- The candidates of a host that spells a name. -/
def expansion (list : SearchList) (ndots : Nat) (host : String) (name : DomainName) : List String :=
  if isAbsolute host ∨ list.entries = [] then [host]
  else if ndots ≤ name.dots then host :: list.entries.map (complete host)
  else list.entries.map (complete host) ++ [host]

theorem cons_ne_concat {names : List String} (hnames : names ≠ []) (h : host ∉ names) :
    host :: names ≠ names ++ [host] := by
  cases names with
  | nil => exact absurd rfl hnames
  | cons name names =>
    intro heq
    rw [List.cons_append, List.cons.injEq] at heq
    exact h (heq.1 ▸ List.mem_cons_self)

/-- Whether the host comes first can be told from the names. -/
theorem first_eq_first_iff {names : List String} (hnames : names ≠ []) (h : host ∉ names)
    {p q : Prop} [Decidable p] [Decidable q] :
    ((if p then host :: names else names ++ [host]) =
      if q then host :: names else names ++ [host]) ↔ (p ↔ q) := by
  have hne := cons_ne_concat hnames h
  by_cases hp : p <;> by_cases hq : q <;> simp [hp, hq, hne, hne.symm]

theorem isComplete_eq_endsInDot (hname : ofString? host = some name)
    (ha : Address.ofString? host = none) : isComplete host = endsInDot host := by
  have hne : (host == "") = false := by
    rw [beq_eq_false_iff_ne]
    rintro rfl
    cases hname
  rw [isComplete, hne, ha, Bool.or_false]
  exact Bool.or_false _

theorem candidates_relative (hcomplete : isComplete host = false) :
    candidates list ndots host =
      if ndots ≤ host.toList.count '.' then host :: list.entries.map (complete host)
      else list.entries.map (complete host) ++ [host] := by
  rw [candidates, hcomplete]
  rfl

theorem expansion_relative (hlist : list.entries ≠ []) (h : isAbsolute host = false) :
    expansion list ndots host name =
      if ndots ≤ name.dots then host :: list.entries.map (complete host)
      else list.entries.map (complete host) ++ [host] := by
  apply if_neg
  rw [h]
  simpa using hlist

/-- The candidates of a host are those of the name that it spells just if there is nothing to
complete it with, or no escaped dot ends it or makes up for a dot that is missing between its
labels. -/
theorem candidates_eq_expansion_iff (hname : ofString? host = some name)
    (ha : Address.ofString? host = none) :
    candidates list ndots host = expansion list ndots host name ↔
      list.entries = [] ∨ isAbsolute host = true ∨
        endsInDot host = false ∧ ¬ (name.dots < ndots ∧ ndots ≤ host.toList.count '.') := by
  have hcomplete := isComplete_eq_endsInDot hname ha
  by_cases hempty : list.entries = []
  · rw [candidates_eq_singleton (.inl hempty), expansion, if_pos (.inr hempty)]
    exact iff_of_true rfl (.inl hempty)
  cases habsolute : isAbsolute host with
  | true =>
    rw [endsInDot_of_isAbsolute habsolute] at hcomplete
    rw [candidates_eq_singleton (.inr hcomplete), expansion, if_pos (.inl habsolute)]
    exact iff_of_true rfl (.inr (.inl rfl))
  | false =>
    have hcompleted : list.entries.map (complete host) ≠ [] := by simpa using hempty
    have hhost := host_notMem_completed list host
    rw [expansion_relative hempty habsolute]
    cases hdot : endsInDot host with
    | true =>
      rw [hdot] at hcomplete
      rw [candidates_eq_singleton (.inr hcomplete)]
      refine iff_of_false ?_ (by simp [hempty])
      split <;> simp [hempty]
    | false =>
      have hle := dots_le_count hname habsolute
      rw [hdot] at hcomplete
      rw [candidates_relative hcomplete, first_eq_first_iff hcompleted hhost,
        or_iff_right hempty, or_iff_right Bool.false_ne_true, and_iff_right rfl]
      omega

/-- The escaped dot of `www\.` passes for the end of an absolute name, and that of `a\.b` is
counted. -/
theorem candidates_eq_expansion_iff_escaped :
    let list : SearchList := ⟨["example.com"]⟩
    ofString? "www\\." = some ⟨[[119, 119, 119, 46]]⟩ ∧ Address.ofString? "www\\." = none ∧
      candidates list 1 "www\\." ≠ expansion list 1 "www\\." ⟨[[119, 119, 119, 46]]⟩ ∧
      ofString? "a\\.b" = some ⟨[[97, 46, 98]]⟩ ∧ Address.ofString? "a\\.b" = none ∧
      candidates list 1 "a\\.b" ≠ expansion list 1 "a\\.b" ⟨[[97, 46, 98]]⟩ ∧
      candidates list 2 "a\\.b" = expansion list 2 "a\\.b" ⟨[[97, 46, 98]]⟩ := by
  intro list
  have hwww : ofString? "www\\." = some ⟨[[119, 119, 119, 46]]⟩ := by decide +kernel
  have hliteral : Address.ofString? "www\\." = none := by decide +kernel
  have hab : ofString? "a\\.b" = some ⟨[[97, 46, 98]]⟩ := by decide +kernel
  have hliteral' : Address.ofString? "a\\.b" = none := by decide +kernel
  exact ⟨hwww, hliteral, (candidates_eq_expansion_iff hwww hliteral).not.mpr (by decide +kernel),
    hab, hliteral', (candidates_eq_expansion_iff hab hliteral').not.mpr (by decide +kernel),
    (candidates_eq_expansion_iff hab hliteral').mpr (by decide +kernel)⟩

end Search

end HostLookup
