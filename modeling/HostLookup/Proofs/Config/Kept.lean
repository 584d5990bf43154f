import HostLookup.Proofs.Config.RoundTrip

/-!
Search lists put together again from their own entries. However a list came about, its entries are
the normal forms of names, each of them once. So it is the list of its entries again, and can be
read from what is written of it, unless an entry ends in a backslash: this is left of a name that
ends in an escaped dot, and is no name.
-/
set_option autoImplicit false

namespace HostLookup

open DomainName

namespace SearchList

variable {l : SearchList} {e : String} {names : List String}

theorem push?_eq_none (h : ¬ (ofString? e).isSome) : l.push? e = none := by
  rw [← push?_isSome_iff (l := l)] at h
  exact Option.not_isSome_iff_eq_none.mp h

/-- Collecting names passes over those that are not valid. -/
theorem ofValid_eq (names : List String) :
    ofValid names = ofNames (names.filter fun name => (ofString? name).isSome) := by
  have hfold : ∀ before, names.foldl (fun l name => (l.push? name).getD l) (ofNames before) =
      ofNames (before ++ names.filter fun name => (ofString? name).isSome) := by
    induction names with
    | nil => simp
    | cons name names ih =>
      intro before
      rw [List.foldl_cons]
      by_cases hvalid : (ofString? name).isSome
      · rw [push?_ofNames hvalid, Option.getD_some, ih, List.filter_cons, if_pos hvalid,
          List.append_assoc, List.singleton_append]
      · rw [push?_eq_none hvalid, Option.getD_none, ih, List.filter_cons, if_neg hvalid]
  exact hfold []

/-- What a list keeps of a name. -/
structure Kept (e : String) : Prop where
  ne_empty : e ≠ ""
  normal : normalize e = e
  valid_iff : (ofString? e).isSome ↔ endsOpen e.toList = false

theorem kept_of_mem_ofNames (hvalid : ∀ name ∈ names, (ofString? name).isSome)
    (h : e ∈ (ofNames names).entries) : Kept e := by
  obtain ⟨name, hname, rfl, hne⟩ := exists_name_of_mem_ofNames h
  exact ⟨hne, normalize_normalize name, isSome_normalize_iff (hvalid name hname) hne⟩

theorem Kept.push?_eq (h : Kept e) (he : e ∈ l.entries) :
    l.push? e = if endsOpen e.toList then none else some l := by
  split
  · rename_i hopen
    apply push?_eq_none
    rw [h.valid_iff, hopen]
    decide
  · rename_i hclosed
    have hvalid := h.valid_iff.mpr (eq_false_of_ne_true hclosed)
    rw [Option.isSome_iff_ne_none, ne_eq, ← Option.isNone_iff_eq_none] at hvalid
    rw [push?, if_neg hvalid, h.normal]
    exact if_pos (.inr he)

theorem Kept.endsInDot_eq_false (h : Kept e) : endsInDot e = false := by
  have hundotted := undotted_normalize e
  rw [h.normal] at hundotted
  rw [endsInDot_eq_false_iff]
  intro hlast
  have hne : e.toList ≠ [] := fun hnil => h.ne_empty (String.toList_inj.mp hnil)
  rw [List.getLast?_eq_some_getLast hne] at hlast
  exact List.rdropWhile_eq_self_iff.mp hundotted hne (beq_iff_eq.mpr (Option.some.inj hlast))

/-- The lists that come about by adding names, collecting names, and reading lines. -/
inductive Made : SearchList → Prop where
  | empty : Made empty
  | pushed {l l' : SearchList} {name : String} : Made l → l.push? name = some l' → Made l'
  | collected (names : List String) : Made (ofValid names)
  | read {c : Config} (line : List Char) : Made c.search → Made (c.readLine line).config.search

end SearchList

namespace Config

open SearchList

variable {c : Config}

/-- A configuration that sets no more than a search list. -/
def searching (l : SearchList) : Config := { initial with search := l }

theorem toList_toString (c : Config) : (toString c).toList = c.chars := String.toList_ofList

theorem search_setOption (c : Config) (name : String) (value : Option Nat) :
    (c.setOption name value).search = c.search := by
  unfold setOption
  split <;> rfl

theorem search_readOptions (c : Config) (ws : List (List Char)) :
    (c.readOptions ws).config.search = c.search := by
  induction ws generalizing c with
  | nil => rfl
  | cons w ws ih =>
    rw [readOptions]
    split
    · rfl
    · rw [ih, search_setOption]

theorem config_doneIfNone (c : Config) (more : List (List Char)) :
    (c.doneIfNone more).config = c := by
  unfold doneIfNone
  split <;> rfl

theorem search_readNameserver (c : Config) (ws : List (List Char)) :
    (c.readNameserver ws).config.search = c.search := by
  unfold readNameserver
  split
  · rfl
  · split
    · rfl
    · rw [config_doneIfNone]
      rfl

/-- A reading has left the search list as it was, or has put the list of some names in its place. -/
def Replaces (c : Config) (r : Reading) : Prop :=
  r.config.search = c.search ∨ ∃ names : List String,
    (∀ name ∈ names, (ofString? name).isSome) ∧ r.config.search = ofNames names

theorem readDomain_replaces (c : Config) (ws : List (List Char)) :
    Replaces c (c.readDomain ws) := by
  cases ws with
  | nil => exact .inl rfl
  | cons w more =>
    rw [readDomain]
    cases hl : SearchList.empty.push? (String.ofList w) with
    | none => exact .inl rfl
    | some l =>
      have hvalid : (ofString? (String.ofList w)).isSome := by
        rw [← push?_isSome_iff (l := .empty), hl]
        rfl
      have hnames : SearchList.empty.push? (String.ofList w) = some (ofNames [String.ofList w]) :=
        @push?_ofNames [] _ hvalid
      refine .inr ⟨[String.ofList w], List.forall_mem_singleton.mpr hvalid, ?_⟩
      rw [config_doneIfNone]
      exact Option.some.inj (hl.symm.trans hnames)

theorem readSearch_replaces (c : Config) (ws : List (List Char)) :
    Replaces c (c.readSearch ws) := by
  unfold readSearch
  split
  · exact .inl rfl
  · rename_i l hl
    have hvalid := valid_of_pushAll? hl
    exact .inr ⟨_, hvalid, Option.some.inj (hl.symm.trans (@pushAll?_ofNames [] _ hvalid))⟩

theorem readLine_replaces (c : Config) (line : List Char) : Replaces c (c.readLine line) := by
  unfold readLine
  split
  · exact .inl rfl
  · unfold readWords
    split
    · exact .inl rfl
    · split
      · exact .inl (search_readNameserver _ _)
      · exact readDomain_replaces _ _
      · exact readSearch_replaces _ _
      · exact .inl rfl
      · exact .inl (search_readOptions _ _)
      · exact .inl rfl

end Config

namespace SearchList

variable {l : SearchList} {e : String} {names : List String}

theorem Made.exists_names (h : Made l) :
    ∃ names, (∀ name ∈ names, (ofString? name).isSome) ∧ l = ofNames names := by
  induction h with
  | empty => exact ⟨[], nofun, rfl⟩
  | @pushed l l' name _ hpush ih =>
    obtain ⟨names, hvalid, rfl⟩ := ih
    have hname : (ofString? name).isSome := by
      rw [← push?_isSome_iff (l := ofNames names), hpush]
      rfl
    refine ⟨names ++ [name], ?_, Option.some.inj (hpush.symm.trans (push?_ofNames hname))⟩
    exact List.forall_mem_append.mpr ⟨hvalid, List.forall_mem_singleton.mpr hname⟩
  | collected names => exact ⟨_, fun _ hname => (List.mem_filter.mp hname).2, ofValid_eq names⟩
  | read line _ ih =>
    rcases Config.readLine_replaces _ line with hsame | hnames
    · rwa [hsame]
    · exact hnames

theorem Made.kept (h : Made l) : ∀ e ∈ l.entries, Kept e := by
  obtain ⟨names, hvalid, rfl⟩ := h.exists_names
  exact fun e => kept_of_mem_ofNames hvalid

theorem Made.nodup (h : Made l) : l.entries.Nodup := by
  obtain ⟨names, hvalid, rfl⟩ := h.exists_names
  exact nodup_ofNames hvalid

/-- A list is what its own entries make of it, also when they are written as words and read. -/
structure Closed (l : SearchList) : Prop where
  pushed : ∀ e ∈ l.entries, l.push? e = some l
  collected : ofValid l.entries = l
  read : (∀ e ∈ l.entries, ∀ c ∈ e.toList, Text.isBlank c = false) →
    Config.initial.read (Text.encode (toString (Config.searching l)).toList) =
      (Config.searching l).done

theorem Made.ofValid_entries (h : Made l) :
    ofValid l.entries = ⟨l.entries.filter fun e => !endsOpen e.toList⟩ := by
  have hfilter : l.entries.filter (fun e => (ofString? e).isSome) =
      l.entries.filter fun e => !endsOpen e.toList := by
    apply List.filter_congr
    intro e he
    rw [Bool.eq_iff_iff, (h.kept e he).valid_iff, Bool.not_eq_true']
  rw [ofValid_eq, hfilter]
  apply ofNames_of_normal (h.nodup.filter _)
  intro e he
  have hkept := h.kept e (List.mem_filter.mp he).1
  exact ⟨hkept.ne_empty, hkept.normal⟩

theorem Made.printable (h : Made l) (hclosed : ∀ e ∈ l.entries, endsOpen e.toList = false)
    (hwords : ∀ e ∈ l.entries, ∀ c ∈ e.toList, Text.isBlank c = false) :
    (Config.searching l).Printable where
  ndots := Config.bounded_initial.ndots
  timeout := Config.bounded_initial.timeout
  protocol := nofun
  ports _ hs := nomatch hs
  nodup := h.nodup
  entries e he := by
    have hkept := h.kept e he
    have hne : e.toList ≠ [] := fun hnil => hkept.ne_empty (String.toList_inj.mp hnil)
    exact ⟨⟨hne, hwords e he⟩, hkept.valid_iff.mpr (hclosed e he), hkept.normal⟩

/-- A list is closed just if no entry ends in an open backslash. Those that do are not taken again.
-/
theorem made_closed_iff (h : Made l) :
    (Closed l ↔ ∀ e ∈ l.entries, endsOpen e.toList = false) ∧
      (∀ e ∈ l.entries, l.push? e = if endsOpen e.toList then none else some l) ∧
      ofValid l.entries = ⟨l.entries.filter fun e => !endsOpen e.toList⟩ := by
  have hpush : ∀ e ∈ l.entries, l.push? e = if endsOpen e.toList then none else some l :=
    fun e he => (h.kept e he).push?_eq he
  refine ⟨⟨?_, ?_⟩, hpush, h.ofValid_entries⟩
  · intro hclosed e he
    apply eq_false_of_ne_true
    intro hopen
    have hagain := hclosed.pushed e he
    rw [hpush e he, if_pos hopen] at hagain
    cases hagain
  · intro hclosed
    refine ⟨?_, ?_, ?_⟩
    · intro e he
      rw [hpush e he, hclosed e he]
      rfl
    · rw [h.ofValid_entries, List.filter_eq_self.mpr fun e he => by rw [hclosed e he]; rfl]
    · intro hwords
      rw [Config.toList_toString]
      exact Config.read_chars_of_printable (h.printable hclosed hwords)

/-- Of the name `www\.` the entry `www\` is kept, which cannot be read again. -/
theorem made_closed_iff_backslash :
    Made ⟨["example"]⟩ ∧ Closed ⟨["example"]⟩ ∧
      Made ⟨["example", "www\\"]⟩ ∧ ¬ Closed ⟨["example", "www\\"]⟩ ∧
      push? ⟨["example", "www\\"]⟩ "www\\" = none ∧
      ofValid ["example", "www\\"] = ⟨["example"]⟩ := by
  have hpush : empty.push? "Example." = some ⟨["example"]⟩ := by decide +kernel
  have hpush' : push? ⟨["example"]⟩ "WWW\\." = some ⟨["example", "www\\"]⟩ := by decide +kernel
  have hplain : Made ⟨["example"]⟩ := .pushed .empty hpush
  have hopen : Made ⟨["example", "www\\"]⟩ := .pushed hplain hpush'
  have hmem : "www\\" ∈ (SearchList.mk ["example", "www\\"]).entries := by simp
  refine ⟨hplain, (made_closed_iff hplain).1.mpr (by decide), hopen, ?_, ?_, ?_⟩
  · intro hclosed
    have hnone := (made_closed_iff hopen).1.mp hclosed "www\\" hmem
    revert hnone
    decide
  · rw [(made_closed_iff hopen).2.1 "www\\" hmem]
    rfl
  · rw [(made_closed_iff hopen).2.2]
    decide +kernel

end SearchList

end HostLookup
