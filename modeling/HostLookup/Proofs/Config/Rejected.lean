import HostLookup.Proofs.Config.Grammar

/-!
What a rejected line does. Reading stops at the first line that is not of the format, and the lines
above it have had their effect. What such a line says before the word at which it goes wrong has its
effect, too: a server is added and a search list replaced before further words are noticed, and
options are set one by one. A list of several names to search is replaced as a whole or not at all.
-/
set_option autoImplicit false

namespace HostLookup.Config

open Text

/-- What a line that is not of the format says before the word at which it goes wrong. -/
inductive Begins (line : List Char) : Statement → Prop where
  | nameserver {w : String} {more : List String} {s : Server} :
      lineWords line = "nameserver" :: w :: more → more ≠ [] → Server.ofString? w = some s →
      Begins line (.nameserver s)
  | domain {name : String} {more : List String} :
      lineWords line = "domain" :: name :: more → more ≠ [] →
      (DomainName.ofString? name).isSome → Begins line (.search [name])
  | options {ws more : List String} {w : String} {settings : List Setting} :
      lineWords line = "options" :: (ws ++ w :: more) → List.Forall₂ Sets ws settings →
      (¬ ∃ setting, Sets w setting) → Begins line (.options settings)

/-- Reading a text stops at a line that is not of the format, and the text of the lines above it
makes one configuration of the other. -/
inductive StopsAt (c : Config) (text : Octets) (line : List Char) (d : Config) : Prop where
  | intro {above below : List Octets} :
      split (· == lineFeed) text = above ++ encode line :: below →
      c.read (ended above) = d.done → (∀ st, ¬ Says line st) → StopsAt c text line d

theorem doneIfNone_of_ne_nil {more : List String} (h : more ≠ []) (c : Config) :
    c.doneIfNone (more.map String.toList) = c.broken := by
  cases more with
  | nil => contradiction
  | cons w more => rfl

section

variable {line : List Char} {st : Statement}

/-- What a rejected line says before it goes wrong has its effect. -/
theorem readLine_of_begins (h : Begins line st) (c : Config) :
    c.readLine line = (c.stating [st]).broken := by
  cases h with
  | @nameserver w more s hline hmore hs =>
    rw [readLine_of_keyword hline (by decide), stating_nameserver, readWords, String.ofList_toList]
    exact (readNameserver_ofString? hs c _).trans (doneIfNone_of_ne_nil hmore _)
  | @domain name more hline hmore hname =>
    rw [readLine_of_keyword hline (by decide), stating_search, readWords, String.ofList_toList]
    exact (readDomain_ofValid hname c _).trans (doneIfNone_of_ne_nil hmore _)
  | @options ws more w settings hline hsets hw =>
    rw [readLine_of_keyword hline (by decide), stating_options, readWords, String.ofList_toList]
    change c.readOptions ((ws ++ w :: more).map String.toList) = _
    rw [List.map_append, readOptions_append, readOptions_of_sets hsets, List.map_cons]
    change (c.setting settings).readOptions _ = _
    rw [readOptions, option?_eq_none_iff.mpr hw]

theorem sets_cases (ws : List String) :
    (∃ settings, List.Forall₂ Sets ws settings) ∨
      ∃ before w more settings, ws = before ++ w :: more ∧ List.Forall₂ Sets before settings ∧
        ¬ ∃ setting, Sets w setting := by
  induction ws with
  | nil => exact .inl ⟨[], .nil⟩
  | cons w ws ih =>
    by_cases hw : ∃ setting, Sets w setting
    · obtain ⟨setting, hw⟩ := hw
      rcases ih with ⟨settings, hws⟩ | ⟨before, v, more, settings, rfl, hbefore, hv⟩
      · exact .inl ⟨setting :: settings, .cons hw hws⟩
      · exact .inr ⟨w :: before, v, more, setting :: settings, rfl, .cons hw hbefore, hv⟩
    · exact .inr ⟨[], w, ws, [], rfl, .nil, hw⟩

theorem readWords_of_rejected (h : ∀ st, ¬ Says line st) (c : Config) :
    (∃ st, Begins line st) ∨ c.readWords (words line) = c.broken := by
  rw [words_eq_of_lineWords rfl]
  generalize hline : lineWords line = ws
  cases ws with
  | nil => exact .inr rfl
  | cons keyword ws =>
    rw [List.map_cons, readWords, String.ofList_toList]
    split
    · rcases readNameserver_cases c ws with ⟨w, more, s, rfl, hs⟩ | hbroken
      · refine .inl ⟨_, .nameserver hline ?_ hs⟩
        rintro rfl
        exact h _ (.nameserver hline hs)
      · exact .inr hbroken
    · rcases readDomain_cases c ws with ⟨name, more, rfl, hname⟩ | hbroken
      · refine .inl ⟨_, .domain hline ?_ hname⟩
        rintro rfl
        exact h _ (.domain hline hname)
      · exact .inr hbroken
    · rcases readSearch_cases c ws with hnames | hbroken
      · exact absurd (.search hline hnames) (h _)
      · exact .inr hbroken
    · exact absurd (.sortlist hline) (h _)
    · rcases sets_cases ws with ⟨settings, hsets⟩ | ⟨before, w, more, settings, rfl, hsets, hw⟩
      · exact absurd (.options hline hsets) (h _)
      · exact .inl ⟨_, .options hline hsets hw⟩
    · exact .inr rfl

/-- A rejected line that does not say anything before it goes wrong has no effect. -/
theorem readLine_of_rejected (h : ∀ st, ¬ Says line st) (c : Config) :
    (∃ st, Begins line st) ∨ c.readLine line = c.broken := by
  by_cases hsilent : isSilent line = true
  · have hdone : (c.readLine line).fault = none := by
      rw [readLine, if_pos hsilent]
      rfl
    obtain ⟨st, hst⟩ := exists_says_of_readLine hdone
    exact absurd hst (h st)
  · rw [readLine, if_neg hsilent]
    exact readWords_of_rejected h c

theorem fault_readLine_of_rejected (h : ∀ st, ¬ Says line st) (c : Config) :
    (c.readLine line).fault = some .malformed := by
  rcases readLine_of_rejected h c with ⟨st, hst⟩ | hbroken
  · rw [readLine_of_begins hst]
    rfl
  · rw [hbroken]
    rfl

end

theorem encode_of_fromUTF8? {os : Octets} {s : String}
    (h : String.fromUTF8? (ByteArray.mk os.toArray) = some s) : os = encode s.toList := by
  unfold String.fromUTF8? at h
  split at h
  · cases h
    rw [encode_toList]
    rfl
  · cases h

/-- Lines are malformed if one of them is not of the format and those above it are. -/
theorem exists_rejected {ls : List Octets} {c : Config}
    (h : (c.readLines ls).fault = some .malformed) :
    ∃ (above : List Octets) (line : List Char) (below : List Octets) (d : Config),
      ls = above ++ encode line :: below ∧ c.readLines above = d.done ∧ ∀ st, ¬ Says line st := by
  induction ls generalizing c with
  | nil => cases h
  | cons os ls ih =>
    rw [readLines] at h
    cases hutf : String.fromUTF8? (ByteArray.mk os.toArray) with
    | none =>
      rw [readOctets, hutf] at h
      cases h
    | some s =>
      obtain rfl := encode_of_fromUTF8? hutf
      by_cases hsays : ∃ st, Says s.toList st
      · obtain ⟨st, hst⟩ := hsays
        rw [readOctets_encode, readLine_statement hst] at h
        obtain ⟨above, line, below, d, rfl, habove, hline⟩ := ih h
        refine ⟨encode s.toList :: above, line, below, d, rfl, ?_, hline⟩
        rw [readLines, readOctets_encode, readLine_statement hst]
        exact habove
      · exact ⟨[], s.toList, ls, c, rfl, rfl, not_exists.mp hsays⟩

section

variable {c d : Config} {text : Octets} {line : List Char}

theorem unended_of_split {above below : List Octets} {l : Octets}
    (h : split (· == lineFeed) text = above ++ l :: below) : ∀ m ∈ above, Unended m := by
  intro m hm o ho
  have hmem : m ∈ split (· == lineFeed) text := h ▸ List.mem_append_left _ hm
  exact @uncut_of_mem_split _ (· == lineFeed) o text m hmem ho

theorem StopsAt.read_eq (h : StopsAt c text line d) : c.read text = d.readLine line := by
  obtain ⟨hsplit, habove, hline⟩ := h
  rw [read_ended (unended_of_split hsplit)] at habove
  rw [read_eq_readLines, hsplit, readLines_append, habove]
  change d.readLines _ = _
  rw [readLines, readOctets_encode, Reading.andThen_of_fault]
  rw [fault_readLine_of_rejected hline]
  apply Option.some_ne_none

theorem malformed_iff_stopsAt :
    (c.read text).fault = some .malformed ↔ ∃ line d, StopsAt c text line d := by
  constructor
  · intro h
    rw [read_eq_readLines] at h
    obtain ⟨above, line, below, d, hsplit, habove, hline⟩ := exists_rejected h
    refine ⟨line, d, hsplit, ?_, hline⟩
    rw [read_ended (unended_of_split hsplit)]
    exact habove
  · rintro ⟨line, d, h⟩
    rw [h.read_eq]
    obtain ⟨_, _, hline⟩ := h
    exact fault_readLine_of_rejected hline d

theorem StopsAt.config_of_begins (h : StopsAt c text line d) {st : Statement}
    (hst : Begins line st) : (c.read text).config = d.stating [st] := by
  rw [h.read_eq, readLine_of_begins hst]
  rfl

/-- A text is malformed just if reading it stops at a line. The line leaves the configuration as the
lines above it made it just if what it says before it goes wrong changes nothing. -/
theorem stopsAt_unchanged_iff (c : Config) (text : Octets) :
    ((c.read text).fault = some .malformed ↔ ∃ line d, StopsAt c text line d) ∧
      ∀ line d, StopsAt c text line d →
        (∀ st, Begins line st → (c.read text).config = d.stating [st]) ∧
        ((c.read text).config = d ↔ ∀ st, Begins line st → d.stating [st] = d) := by
  refine ⟨malformed_iff_stopsAt, ?_⟩
  intro line d h
  refine ⟨fun st hst => h.config_of_begins hst, ?_⟩
  constructor
  · intro hsame st hst
    rw [← h.config_of_begins hst, hsame]
  · intro hsame
    obtain ⟨_, _, hline⟩ := id h
    rcases readLine_of_rejected hline d with ⟨st, hst⟩ | hbroken
    · rw [h.config_of_begins hst, hsame st hst]
    · rw [h.read_eq, hbroken]
      rfl

theorem not_says_of_fault (h : (c.readLine line).fault ≠ none) (st : Statement) :
    ¬ Says line st := by
  intro hst
  rw [readLine_statement hst] at h
  exact h rfl

end

/-- A line with one word too many behind a line that is of the format. -/
def trailingText : Octets := encode "nameserver 192.0.2.1\nnameserver 192.0.2.2 x\n".toList

/-- A line whose second name is not valid behind the same line. -/
def halfValidText : Octets := encode "nameserver 192.0.2.1\nsearch example a..b\n".toList

/-- What the first line of both texts makes of the configuration to begin with. -/
def oneServer : Config := initial.addServer ⟨.v4 ⟨192, 0, 2, 1⟩, none⟩

theorem stopsAt_trailing :
    StopsAt initial trailingText "nameserver 192.0.2.2 x".toList oneServer := by
  have hfault : (initial.readLine "nameserver 192.0.2.2 x".toList).fault ≠ none := by
    decide +kernel
  exact @StopsAt.intro _ _ _ _ [encode "nameserver 192.0.2.1".toList] [[]] (by decide +kernel)
    (by decide +kernel) (not_says_of_fault hfault)

theorem stopsAt_halfValid :
    StopsAt initial halfValidText "search example a..b".toList oneServer := by
  have hfault : (initial.readLine "search example a..b".toList).fault ≠ none := by
    decide +kernel
  exact @StopsAt.intro _ _ _ _ [encode "nameserver 192.0.2.1".toList] [[]] (by decide +kernel)
    (by decide +kernel) (not_says_of_fault hfault)

/-- The line with a word too many leaves its server behind, the one with an invalid name nothing. -/
theorem stopsAt_unchanged_iff_trailing :
    StopsAt initial trailingText "nameserver 192.0.2.2 x".toList oneServer ∧
      (initial.read trailingText).config ≠ oneServer ∧
      StopsAt initial halfValidText "search example a..b".toList oneServer ∧
      (initial.read halfValidText).config = oneServer := by
  have hbegins : Begins "nameserver 192.0.2.2 x".toList
      (.nameserver ⟨.v4 ⟨192, 0, 2, 2⟩, none⟩) :=
    @Begins.nameserver _ "192.0.2.2" ["x"] _ (by decide +kernel) nofun (by decide +kernel)
  have hwords : lineWords "search example a..b".toList = ["search", "example", "a..b"] := by
    decide +kernel
  obtain ⟨_, htrailing⟩ := (stopsAt_unchanged_iff initial trailingText).2 _ _ stopsAt_trailing
  obtain ⟨_, hhalf⟩ := (stopsAt_unchanged_iff initial halfValidText).2 _ _ stopsAt_halfValid
  refine ⟨stopsAt_trailing, ?_, stopsAt_halfValid, hhalf.mpr ?_⟩
  · intro hsame
    exact absurd (htrailing.mp hsame _ hbegins) (by decide +kernel)
  · intro st hst
    cases hst with
    | nameserver hline | domain hline | options hline =>
      rw [hwords] at hline
      simp at hline

end HostLookup.Config
