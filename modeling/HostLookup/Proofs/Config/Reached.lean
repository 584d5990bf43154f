import HostLookup.Proofs.Config.Bounds
import HostLookup.Proofs.Config.Servers
import HostLookup.Proofs.Name.Normal

/-!
What reading texts can make of a configuration. As long as no text has a backslash, the names in the
search list are names again in the form in which they are kept, and can stand in a text as words.
-/
set_option autoImplicit false

namespace HostLookup

open Text

namespace SearchList

/-- A name that can be written as a word and read back. -/
structure IsEntry (e : String) : Prop where
  isWord : IsWord e.toList
  valid : (DomainName.ofString? e).isSome
  normal : normalize e = e

theorem exists_name_of_mem_ofNames {names : List String} {e : String}
    (h : e ∈ (ofNames names).entries) : ∃ name ∈ names, normalize name = e ∧ e ≠ "" := by
  obtain ⟨he, hne⟩ := List.mem_filter.mp (List.mem_eraseDups.mp h)
  obtain ⟨name, hname, rfl⟩ := List.mem_map.mp he
  exact ⟨name, hname, rfl, by simpa using hne⟩

theorem isEntry_of_mem_ofNames {names : List String}
    (hvalid : ∀ name ∈ names, (DomainName.ofString? name).isSome)
    (hwords : ∀ name ∈ names, IsWord name.toList) (hplain : ∀ name ∈ names, '\\' ∉ name.toList)
    {e : String} (h : e ∈ (ofNames names).entries) : IsEntry e := by
  obtain ⟨name, hname, rfl, hne⟩ := exists_name_of_mem_ofNames h
  exact ⟨isWord_normalize (hwords name hname).2 hne,
    (isSome_normalize_iff (hvalid name hname) hne).mpr
      (endsOpen_normalize_of_notMem (hplain name hname)), normalize_normalize name⟩

theorem nodup_ofNames {names : List String}
    (hvalid : ∀ name ∈ names, (DomainName.ofString? name).isSome) :
    (ofNames names).entries.Nodup :=
  nodup_pushAll? (@pushAll?_ofNames [] names hvalid) List.nodup_nil

end SearchList

namespace Config

/-- The configurations that are reached by reading texts without backslashes, and by using a server
on the own host where there is none. -/
inductive Reached : Config → Prop where
  | initial : Reached initial
  | read {c d : Config} {text : List Char} : Reached c → '\\' ∉ text →
      c.read (encode text) = d.done → Reached d
  | finalize {c : Config} : Reached c → Reached c.finalize

/-- What is written of a configuration is all of it. -/
structure Printable (c : Config) : Prop extends Bounded c where
  protocol : c.protocol ≠ .tls
  ports : ∀ s ∈ c.servers, s.port ≠ some 0
  nodup : c.search.entries.Nodup
  entries : ∀ e ∈ c.search.entries, SearchList.IsEntry e

theorem printable_initial : Printable initial where
  toBounded := bounded_initial
  protocol := nofun
  ports _ hs := nomatch hs
  nodup := List.nodup_nil
  entries _ he := nomatch he

theorem Printable.finalize {c : Config} (h : Printable c) : Printable c.finalize := by
  unfold Config.finalize
  split
  · refine ⟨⟨h.ndots, h.timeout⟩, h.protocol, ?_, h.nodup, h.entries⟩
    intro s hs
    rcases List.mem_append.mp hs with hs | hs
    · exact h.ports s hs
    · cases List.mem_singleton.mp hs
      exact nofun
  · exact h

section Says

variable {line : List Char}

theorem mem_words_of_lineWords {w : String} (h : w ∈ lineWords line) : w.toList ∈ words line := by
  obtain ⟨v, hv, rfl⟩ := List.mem_map.mp h
  rwa [String.toList_ofList]

theorem port_ne_zero_of_statement {s : Server} (h : Says line (.nameserver s)) :
    s.port ≠ some 0 := by
  cases h with
  | nameserver _ hs => exact Server.port_ne_zero hs

theorem mem_lineWords_of_statement {names : List String} (h : Says line (.search names)) :
    ∀ name ∈ names, name ∈ lineWords line ∧ (DomainName.ofString? name).isSome := by
  intro name hname
  cases h with
  | domain hline hvalid =>
    cases List.mem_singleton.mp hname
    rw [hline]
    exact ⟨by simp, hvalid⟩
  | search hline hvalid =>
    rw [hline]
    exact ⟨List.mem_cons_of_mem _ hname, hvalid name hname⟩

theorem isEntry_of_statement {names : List String} (hplain : '\\' ∉ line)
    (h : Says line (.search names)) :
    (SearchList.ofNames names).entries.Nodup ∧
      ∀ e ∈ (SearchList.ofNames names).entries, SearchList.IsEntry e := by
  have hmem := mem_lineWords_of_statement h
  have hvalid : ∀ name ∈ names, (DomainName.ofString? name).isSome := fun name hname =>
    (hmem name hname).2
  refine ⟨SearchList.nodup_ofNames hvalid, ?_⟩
  intro e he
  refine SearchList.isEntry_of_mem_ofNames hvalid ?_ ?_ he
  · intro name hname
    exact isWord_of_mem_words (mem_words_of_lineWords (hmem name hname).1)
  · intro name hname hbackslash
    exact hplain (subset_of_mem_words (mem_words_of_lineWords (hmem name hname).1) hbackslash)

end Says

/-- The search list is left as it was, or given by one of the lines. -/
theorem search_stating {text : List (List Char)} {sts : List Statement}
    (h : List.Forall₂ Says text sts) (c : Config) :
    (c.stating sts).search = c.search ∨ ∃ line ∈ text, ∃ names,
      Says line (.search names) ∧ (c.stating sts).search = SearchList.ofNames names := by
  cases hlast : (sts.filterMap Statement.names?).getLast? with
  | none =>
    left
    simp only [stating, hlast]
    rfl
  | some names =>
    right
    obtain ⟨st, hst, hnames⟩ := List.mem_filterMap.mp (List.mem_of_getLast? hlast)
    obtain ⟨line, hline, hmeans⟩ := exists_of_mem_forall₂ h hst
    cases st with
    | search names' =>
      cases hnames
      refine ⟨line, hline, names, hmeans, ?_⟩
      simp only [stating, hlast]
      rfl
    | _ => cases hnames

theorem ports_stating {text : List (List Char)} {sts : List Statement} {c : Config}
    (h : List.Forall₂ Says text sts) (hc : ∀ s ∈ c.servers, s.port ≠ some 0) :
    ∀ s ∈ (c.stating sts).servers, s.port ≠ some 0 := by
  intro s hs
  rcases List.mem_append.mp hs with hs | hs
  · exact hc s hs
  · obtain ⟨st, hst, hserver⟩ := List.mem_filterMap.mp hs
    obtain ⟨line, _, hmeans⟩ := exists_of_mem_forall₂ h hst
    cases st with
    | nameserver s' =>
      cases hserver
      exact port_ne_zero_of_statement hmeans
    | _ => cases hserver

theorem protocol_stating {c : Config} (sts : List Statement) (hc : c.protocol ≠ .tls) :
    (c.stating sts).protocol ≠ .tls := by
  simp only [stating, setting]
  split
  · intro h
    cases h
  · exact hc

theorem Printable.read {c d : Config} {text : List Char} (hc : Printable c)
    (hplain : '\\' ∉ text) (h : c.read (encode text) = d.done) : Printable d := by
  have hbounded : Bounded d := hc.toBounded.read h
  obtain ⟨sts, hsts, rfl⟩ := exists_says_of_read h
  have hentries : (c.stating sts).search.entries.Nodup ∧
      ∀ e ∈ (c.stating sts).search.entries, SearchList.IsEntry e := by
    rcases search_stating hsts c with hsearch | ⟨line, hline, names, hmeans, hsearch⟩
    · rw [hsearch]
      exact ⟨hc.nodup, hc.entries⟩
    · rw [hsearch]
      exact isEntry_of_statement (fun hmem => hplain (subset_of_mem_split hline hmem)) hmeans
  exact ⟨hbounded, protocol_stating sts hc.protocol, ports_stating hsts hc.ports, hentries.1,
    hentries.2⟩

theorem Reached.printable {c : Config} (h : Reached c) : Printable c := by
  induction h with
  | initial => exact printable_initial
  | read _ hplain hread ih => exact ih.read hplain hread
  | finalize _ ih => exact ih.finalize

end Config

end HostLookup
