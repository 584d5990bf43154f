import HostLookup.Config.Printer
import HostLookup.Proofs.Config.Reached

/-!
Configurations read back as they were written. The written form consists of lines of words; each
line says what it was written for, and together they make the configuration out of the initial one.
-/
set_option autoImplicit false

namespace HostLookup

open Text

theorem stray_of_isBlank {c : Char} (h : isBlank c = true) : V6.Stray c := by
  refine ⟨?_, ?_, ?_⟩
  · cases hd : digitValue c with
    | none => rfl
    | some d =>
      rw [isBlank_of_digitValue hd] at h
      cases h
  · rintro rfl
    cases h
  · rintro rfl
    cases h

theorem Server.isWord_chars (s : Server) : IsWord s.chars := by
  constructor
  · intro hnil
    have hread := Server.ofChars?_chars s
    rw [hnil] at hread
    cases hread
  · intro c hc
    apply eq_false_of_ne_true
    intro hblank
    refine Server.notMem_chars (stray_of_isBlank hblank) ?_ ?_ s hc
    · rintro rfl
      cases hblank
    · rintro rfl
      cases hblank

namespace SearchList

theorem eraseDups_eq_self {α : Type} [BEq α] [LawfulBEq α] {as : List α} (h : as.Nodup) :
    as.eraseDups = as := by
  induction as with
  | nil => rfl
  | cons a as ih =>
    obtain ⟨ha, has⟩ := List.nodup_cons.mp h
    have hfilter : as.filter (fun b => !b == a) = as := by
      apply List.filter_eq_self.mpr
      intro b hb
      simpa using ne_of_mem_of_not_mem hb ha
    rw [List.eraseDups_cons, hfilter, ih has]

/-- Names in normal form stay what they are. -/
theorem ofNames_of_normal {names : List String} (hnodup : names.Nodup)
    (h : ∀ name ∈ names, name ≠ "" ∧ normalize name = name) : ofNames names = ⟨names⟩ := by
  have hmap : names.map normalize = names := by
    conv => rhs; rw [← List.map_id names]
    exact List.map_congr_left fun name hname => (h name hname).2
  have hforms : forms names = names := by
    rw [forms, hmap]
    apply List.filter_eq_self.mpr
    intro name hname
    simpa using (h name hname).1
  rw [ofNames, hforms, eraseDups_eq_self hnodup]

theorem ofNames_entries {l : SearchList} (hnodup : l.entries.Nodup)
    (h : ∀ e ∈ l.entries, IsEntry e) : ofNames l.entries = l := by
  apply ofNames_of_normal hnodup
  intro e he
  refine ⟨?_, (h e he).normal⟩
  rintro rfl
  exact (h "" he).isWord.1 rfl

end SearchList

namespace Config

variable {c : Config}

/-- A line of words. -/
def spaced (ws : List String) : List Char := [' '].intercalate (ws.map String.toList)

theorem lineWords_spaced {ws : List String} (h : ∀ w ∈ ws, IsWord w.toList) :
    lineWords (spaced ws) = ws := by
  have hwords : ∀ w ∈ ws.map String.toList, IsWord w := by simpa using h
  rw [lineWords, spaced, words_intercalate hwords, List.map_map]
  exact List.map_id'' (fun w => String.ofList_toList) ws

theorem newline_notMem_spaced {ws : List String} (h : ∀ w ∈ ws, IsWord w.toList) :
    '\n' ∉ spaced ws := by
  apply notMem_intercalate (by decide) (by decide)
  simpa using h

theorem lines_flatMap {text : List (List Char)} (h : ∀ line ∈ text, '\n' ∉ line) :
    lines (text.flatMap (· ++ ['\n'])) = text ++ [[]] := by
  induction text with
  | nil => rfl
  | cons line text ih =>
    obtain ⟨hline, htext⟩ := List.forall_mem_cons.mp h
    have hcut := @split_append_cut Char (· == '\n') '\n' rfl line (text.flatMap (· ++ ['\n']))
    rw [List.flatMap_cons, List.append_assoc, List.singleton_append, lines, hcut,
      split_eq_singleton (uncut_of_notMem hline)]
    exact congrArg (line :: ·) (ih htext)

/-- The settings that are written of a configuration. -/
def settings (c : Config) : List Setting :=
  (if c.ndots = initial.ndots then [] else [("ndots", some c.ndots)]) ++
  (if c.timeout = initial.timeout then [] else [("timeout", some c.timeoutSeconds)]) ++
  (if c.rotate then [("rotate", none)] else []) ++
  (if c.protocol = .tcp then [("use-vc", none)] else [])

theorem timeoutSeconds_lt (h : Bounded c) : c.timeoutSeconds < valueBound := by
  obtain ⟨seconds, hlt, htimeout⟩ := h.timeout
  rw [timeoutSeconds, htimeout, Nat.mul_div_cancel seconds (by decide)]
  exact hlt

theorem timeoutSeconds_mul (h : Bounded c) : c.timeoutSeconds * 1000 = c.timeout := by
  obtain ⟨seconds, _, htimeout⟩ := h.timeout
  rw [timeoutSeconds, htimeout, Nat.mul_div_cancel seconds (by decide)]

theorem sets_decimal (name : String) {n : Nat} (hname : ':' ∉ name.toList) (hn : n < valueBound) :
    Sets (String.ofList ((name ++ ":").toList ++ decimal n)) (name, some n) := by
  rw [String.ofList_append, String.ofList_toList]
  refine .valued hname ?_
  rw [String.toList_ofList]
  exact isNumeral_decimal hn

theorem forall₂_ite {α β : Type} {R : α → β → Prop} {p : Prop} [Decidable p] {as as' : List α}
    {bs bs' : List β} (h : List.Forall₂ R as bs) (h' : List.Forall₂ R as' bs') :
    List.Forall₂ R (if p then as else as') (if p then bs else bs') := by
  split
  · exact h
  · exact h'

/-- The words written for options, as strings. -/
def optionStrings (c : Config) : List String := c.optionWords.map String.ofList

theorem sets_optionStrings (h : Bounded c) : List.Forall₂ Sets c.optionStrings c.settings := by
  have hndots : Sets (String.ofList ("ndots:".toList ++ decimal c.ndots))
      ("ndots", some c.ndots) := sets_decimal "ndots" (by decide) h.ndots
  have htimeout : Sets (String.ofList ("timeout:".toList ++ decimal c.timeoutSeconds))
      ("timeout", some c.timeoutSeconds) :=
    sets_decimal "timeout" (by decide) (timeoutSeconds_lt h)
  rw [optionStrings, optionWords, settings]
  simp only [List.map_append, apply_ite (List.map String.ofList), List.map_cons, List.map_nil,
    String.ofList_toList]
  refine List.rel_append (List.rel_append (List.rel_append ?_ ?_) ?_) ?_
  · exact forall₂_ite .nil (.cons hndots .nil)
  · exact forall₂_ite .nil (.cons htimeout .nil)
  · exact forall₂_ite (.cons (.bare (by decide)) .nil) .nil
  · exact forall₂_ite (.cons (.bare (by decide)) .nil) .nil

theorem isWord_optionWords (c : Config) : ∀ w ∈ c.optionWords, IsWord w := by
  have hndots : IsWord ("ndots:".toList ++ decimal c.ndots) :=
    IsWord.append (by decide +kernel) (isWord_decimal _)
  have htimeout : IsWord ("timeout:".toList ++ decimal c.timeoutSeconds) :=
    IsWord.append (by decide +kernel) (isWord_decimal _)
  have hrotate : IsWord "rotate".toList := by decide +kernel
  have htcp : IsWord "use-vc".toList := by decide +kernel
  intro w hw
  simp only [optionWords, List.mem_append, List.mem_ite_nil_left, List.mem_ite_nil_right,
    List.mem_singleton] at hw
  rcases hw with ((⟨_, rfl⟩ | ⟨_, rfl⟩) | ⟨_, rfl⟩) | ⟨_, rfl⟩
  · exact hndots
  · exact htimeout
  · exact hrotate
  · exact htcp

/-- The lines that are written of a configuration, as words. -/
def written (c : Config) : List (List String) :=
  c.servers.map (fun s => ["nameserver", String.ofList s.chars]) ++
  (if c.search.entries.isEmpty then [] else ["search" :: c.search.entries]) ++
  (if c.optionWords.isEmpty then [] else ["options" :: c.optionStrings])

/-- What they say. -/
def statements (c : Config) : List Statement :=
  c.servers.map .nameserver ++
  (if c.search.entries.isEmpty then [] else [.search c.search.entries]) ++
  (if c.optionWords.isEmpty then [] else [.options c.settings])

theorem spaced_cons (w : String) (ws : List String) :
    spaced (w :: ws) = w.toList ++ ws.flatMap fun v => ' ' :: v.toList := by
  rw [spaced, List.map_cons, intercalate_cons, List.flatMap_map]

theorem spaced_server (s : Server) :
    spaced ["nameserver", String.ofList s.chars] = "nameserver".toList ++ ' ' :: s.chars := by
  have hserver : (String.ofList s.chars).toList = s.chars := String.toList_ofList
  rw [spaced_cons, List.flatMap_singleton, hserver]

theorem serverLine_eq (s : Server) :
    serverLine s = spaced ["nameserver", String.ofList s.chars] ++ ['\n'] := by
  have hkeyword : "nameserver ".toList = "nameserver".toList ++ [' '] := by decide
  rw [spaced_server]
  unfold serverLine
  rw [hkeyword, List.append_assoc _ [' '], List.singleton_append]

theorem searchLine_eq (l : SearchList) : searchLine l =
    (if l.entries.isEmpty then [] else ["search" :: l.entries]).flatMap
      (fun ws => spaced ws ++ ['\n']) := by
  unfold searchLine
  split
  · rfl
  · rw [List.flatMap_singleton, spaced_cons]

theorem optionsLine_eq (ws : List (List Char)) : optionsLine ws =
    (if ws.isEmpty then [] else ["options" :: ws.map String.ofList]).flatMap
      (fun ws => spaced ws ++ ['\n']) := by
  unfold optionsLine
  split
  · rfl
  · rename_i hne
    have hkeyword : "options ".toList = "options".toList ++ [' '] := by decide
    obtain ⟨w, ws, rfl⟩ := List.exists_cons_of_ne_nil (fun h => hne (List.isEmpty_iff.mpr h))
    rw [List.flatMap_singleton, spaced_cons, intercalate_cons, hkeyword]
    simp only [List.map_cons, List.flatMap_cons, List.flatMap_map, String.toList_ofList,
      List.append_assoc, List.cons_append, List.nil_append]

theorem chars_eq (c : Config) :
    c.chars = (c.written.map spaced).flatMap (· ++ ['\n']) := by
  have hservers : c.servers.flatMap serverLine =
      c.servers.flatMap fun s => spaced ["nameserver", String.ofList s.chars] ++ ['\n'] :=
    List.flatMap_congr fun s _ => serverLine_eq s
  rw [List.flatMap_map, written, List.flatMap_append, List.flatMap_append, List.flatMap_map, chars,
    hservers, searchLine_eq, optionsLine_eq]
  rfl

theorem isWord_optionStrings (c : Config) : ∀ w ∈ c.optionStrings, IsWord w.toList := by
  intro w hw
  obtain ⟨v, hv, rfl⟩ := List.mem_map.mp hw
  rw [String.toList_ofList]
  exact isWord_optionWords c v hv

theorem isWord_keyword {k : String} (h : k ∈ keywords) : IsWord k.toList := by
  have hall : ∀ k ∈ keywords, IsWord k.toList := by decide +kernel
  exact hall k h

theorem isWord_written (h : Printable c) : ∀ ws ∈ c.written, ∀ w ∈ ws, IsWord w.toList := by
  intro ws hws
  simp only [written, List.mem_append, List.mem_ite_nil_left, List.mem_singleton] at hws
  rcases hws with (hws | ⟨_, rfl⟩) | ⟨_, rfl⟩
  · obtain ⟨s, _, rfl⟩ := List.mem_map.mp hws
    refine List.forall_mem_cons.mpr ⟨isWord_keyword (by decide), ?_⟩
    intro w hw
    rw [List.mem_singleton.mp hw, String.toList_ofList]
    exact s.isWord_chars
  · exact List.forall_mem_cons.mpr ⟨isWord_keyword (by decide), fun e he => (h.entries e he).isWord⟩
  · exact List.forall_mem_cons.mpr ⟨isWord_keyword (by decide), isWord_optionStrings c⟩

theorem says_written (h : Printable c) :
    List.Forall₂ Says (c.written.map spaced) c.statements := by
  have hwords : ∀ ws ∈ c.written, lineWords (spaced ws) = ws := fun ws hws =>
    lineWords_spaced (isWord_written h ws hws)
  rw [written, List.forall_mem_append, List.forall_mem_append] at hwords
  obtain ⟨⟨hservers, hsearch⟩, hoptions⟩ := hwords
  rw [List.forall₂_map_left_iff, written, statements]
  refine List.rel_append (List.rel_append ?_ ?_) ?_
  · rw [List.forall₂_map_left_iff, List.forall₂_map_right_iff, List.forall₂_same]
    intro s hs
    have hread := Server.ofString?_toString_of_port (h.ports s hs)
    exact .nameserver (hservers _ (List.mem_map_of_mem hs)) hread
  · split
    · exact .nil
    · rename_i hne
      rw [if_neg hne, List.forall_mem_singleton] at hsearch
      exact .cons (.search hsearch fun e he => (h.entries e he).valid) .nil
  · split
    · exact .nil
    · rename_i hne
      rw [if_neg hne, List.forall_mem_singleton] at hoptions
      exact .cons (.options hoptions (sets_optionStrings h.toBounded)) .nil

theorem stating_servers (c : Config) (ss : List Server) :
    c.stating (ss.map .nameserver) = { c with servers := c.servers ++ ss } := by
  induction ss generalizing c with
  | nil => simp
  | cons s ss ih =>
    rw [List.map_cons, ← List.singleton_append, stating_append, stating_nameserver, ih]
    simp [addServer]

theorem stating_entries (h : Printable c) {d : Config} (hd : d.search = .empty) :
    d.stating (if c.search.entries.isEmpty then [] else [.search c.search.entries]) =
      { d with search := c.search } := by
  split
  · rename_i hempty
    have hsearch : c.search = .empty := by
      rw [SearchList.empty, ← List.isEmpty_iff.mp hempty]
    rw [stating_nil, hsearch, ← hd]
  · rw [stating_search, SearchList.ofNames_entries h.nodup h.entries]

theorem stating_settings (h : Bounded c) (d : Config) :
    d.stating (if c.optionWords.isEmpty then [] else [.options c.settings]) =
      d.setting c.settings := by
  split
  · rename_i hempty
    have hlength := (sets_optionStrings h).length_eq
    rw [optionStrings, List.isEmpty_iff.mp hempty] at hlength
    rw [stating_nil, List.eq_nil_of_length_eq_zero hlength.symm, setting_nil]
  · exact stating_options d c.settings

theorem mem_settings_rotate : ("rotate", none) ∈ c.settings ↔ c.rotate = true := by
  simp [settings]

theorem mem_settings_tcp : ("use-vc", none) ∈ c.settings ↔ c.protocol = .tcp := by
  simp [settings]

theorem lastValue?_settings_ndots :
    lastValue? "ndots" c.settings = if c.ndots = initial.ndots then none else some c.ndots := by
  simp only [settings, lastValue?_append, apply_ite (lastValue? "ndots"), lastValue?_singleton,
    lastValue?_nil]
  simp

theorem lastValue?_settings_timeout : lastValue? "timeout" c.settings =
    if c.timeout = initial.timeout then none else some c.timeoutSeconds := by
  simp only [settings, lastValue?_append, apply_ite (lastValue? "timeout"), lastValue?_singleton,
    lastValue?_nil]
  simp

/-- What differs from the initial configuration is set, and the rest is as it was. -/
theorem setting_settings (h : Printable c) : initial.setting c.settings =
    { c with servers := initial.servers, search := initial.search } := by
  have hprotocol : (if ("use-vc", none) ∈ c.settings then Protocol.tcp else initial.protocol) =
      c.protocol := by
    rw [if_congr mem_settings_tcp rfl rfl]
    have htls := h.protocol
    cases hp : c.protocol with
    | udp => rfl
    | tcp => rfl
    | tls => exact absurd hp htls
  have hrotate : (initial.rotate || decide (("rotate", none) ∈ c.settings)) = c.rotate := by
    rw [Bool.eq_iff_iff]
    simp [mem_settings_rotate, initial]
  have hndots : (lastValue? "ndots" c.settings).getD initial.ndots = c.ndots := by
    rw [lastValue?_settings_ndots]
    split
    · rename_i hndots
      exact hndots.symm
    · rfl
  have htimeout : ((lastValue? "timeout" c.settings).map (· * 1000)).getD initial.timeout =
      c.timeout := by
    rw [lastValue?_settings_timeout]
    split
    · rename_i htimeout
      exact htimeout.symm
    · exact timeoutSeconds_mul h.toBounded
  rw [setting, hprotocol, hrotate, hndots, htimeout]

theorem stating_statements (h : Printable c) : initial.stating c.statements = c := by
  rw [statements, stating_append, stating_append, stating_servers, stating_entries h rfl,
    stating_settings h.toBounded]
  change { initial.setting c.settings with
    servers := initial.servers ++ c.servers, search := c.search } = c
  rw [setting_settings h]
  rfl

theorem read_chars_of_printable (h : Printable c) : initial.read (encode c.chars) = c.done := by
  have hlines : lines c.chars = c.written.map spaced ++ [[]] := by
    rw [chars_eq]
    apply lines_flatMap
    intro line hline
    obtain ⟨ws, hws, rfl⟩ := List.mem_map.mp hline
    exact newline_notMem_spaced (isWord_written h ws hws)
  -- Behind the last line feed there is one more line, and it is blank.
  have hmeans : List.Forall₂ Says (lines c.chars) (c.statements ++ [.nothing]) := by
    rw [hlines]
    exact List.rel_append (says_written h) (.cons (.blank rfl) .nil)
  rw [read_statements hmeans, stating_append, stating_nothing, stating_statements h]

/-- The written form of a configuration that was reached from the initial one reads back as the
configuration, and so is written the same way again. -/
theorem read_toString {c : Config} (h : Reached c) :
    initial.read (encode (toString c).toList) = c.done ∧
      toString (initial.read (encode (toString c).toList)).config = toString c := by
  have hread : initial.read (encode (toString c).toList) = c.done := by
    change initial.read (encode (String.ofList c.chars).toList) = c.done
    rw [String.toList_ofList]
    exact read_chars_of_printable h.printable
  refine ⟨hread, ?_⟩
  rw [hread]
  rfl

/-- A configuration in which nothing is as in the initial one. -/
def furnished : Config where
  protocol := .tcp
  servers := [.withPort (.v6 ⟨0x2001, 0xdb8, 0, 0, 0, 0, 0, 1⟩) 54]
  rotate := true
  timeout := 7000
  search := ⟨["a.example"]⟩
  ndots := 3

example : toString furnished = "nameserver [2001:db8::1]:54\nsearch a.example\n" ++
    "options ndots:3 timeout:7 rotate use-vc\n" := by decide +kernel

/-- A text that it is read from. -/
def furnishing : List Char :=
  "nameserver [2001:db8::1]:54\nsearch A.example a.Example.\n".toList ++
    "options use-vc ndots:3 rotate timeout:7".toList

theorem read_toString_furnished : Reached furnished.finalize ∧
    initial.read (encode (toString furnished.finalize).toList) = furnished.finalize.done ∧
    toString (initial.read (encode (toString furnished.finalize).toList)).config =
      toString furnished.finalize := by
  have hread : initial.read (encode furnishing) = furnished.done := by decide +kernel
  have hreached : Reached furnished.finalize := .finalize (.read .initial (by decide +kernel) hread)
  exact ⟨hreached, read_toString hreached⟩

end Config

end HostLookup
