import HostLookup.Proofs.Config.Lines
import HostLookup.Proofs.Text.Numerals
import Mathlib.Data.List.Forall2

/-!
The format of configurations, and what a text of the format means. Each line makes a statement;
statements about servers add up, and of all others the last one counts. Reading a text succeeds just
if every line is of the format, and then the configuration is what the statements make of it.
-/
set_option autoImplicit false

namespace HostLookup

open Text

namespace SearchList

/-- The normal forms of names, without what is left of the root. -/
def forms (names : List String) : List String := (names.map normalize).filter (· ≠ "")

/-- The list of the normal forms of names, each at its first place. -/
def ofNames (names : List String) : SearchList := ⟨(forms names).eraseDups⟩

theorem forms_append (names more : List String) :
    forms (names ++ more) = forms names ++ forms more := by
  rw [forms, List.map_append, List.filter_append]
  rfl

theorem push?_isSome_iff {l : SearchList} {name : String} :
    (l.push? name).isSome ↔ (DomainName.ofString? name).isSome := by
  unfold push?
  cases DomainName.ofString? name with
  | none => simp
  | some n =>
    dsimp only [Option.isNone_some]
    split
    · contradiction
    · split <;> simp

theorem push?_ofNames {names : List String} {name : String}
    (h : (DomainName.ofString? name).isSome) :
    (ofNames names).push? name = some (ofNames (names ++ [name])) := by
  have hvalid : ¬ (DomainName.ofString? name).isNone = true := by
    rwa [Option.isNone_iff_eq_none, ← ne_eq, ← Option.isSome_iff_ne_none]
  rw [push?, if_neg hvalid, ofNames, ofNames, forms_append, List.eraseDups_append]
  by_cases hempty : normalize name = ""
  · have hform : forms [name] = [] := by simp [forms, hempty]
    simp [hempty, hform, List.removeAll]
  · have hform : forms [name] = [normalize name] := by simp [forms, hempty]
    by_cases hmem : normalize name ∈ forms names
    · simp [hempty, hform, hmem, List.removeAll]
    · simp [hempty, hform, hmem, List.removeAll, List.eraseDups_cons]

theorem pushAll?_ofNames {names more : List String}
    (h : ∀ name ∈ more, (DomainName.ofString? name).isSome) :
    (ofNames names).pushAll? more = some (ofNames (names ++ more)) := by
  induction more generalizing names with
  | nil =>
    rw [List.append_nil]
    rfl
  | cons name more ih =>
    obtain ⟨hname, hmore⟩ := List.forall_mem_cons.mp h
    have hrest := @ih (names ++ [name]) hmore
    rw [List.append_assoc] at hrest
    exact (congrArg (Option.bind · _) (push?_ofNames hname)).trans hrest

theorem valid_of_pushAll? {l l' : SearchList} {names : List String}
    (h : l.pushAll? names = some l') : ∀ name ∈ names, (DomainName.ofString? name).isSome := by
  induction names generalizing l with
  | nil => exact nofun
  | cons name names ih =>
    obtain ⟨m, hm, h⟩ := Option.bind_eq_some_iff.mp h
    refine List.forall_mem_cons.mpr ⟨?_, ih h⟩
    rw [← push?_isSome_iff (l := l), hm]
    rfl

end SearchList

namespace Config

/-- An option's name, and its value if it has one. -/
abbrev Setting := String × Option Nat

/-- Options are a name without a colon, or one with a colon and a number behind it. -/
inductive Sets : String → Setting → Prop where
  | bare {name : String} : ':' ∉ name.toList → Sets name (name, none)
  | valued {name value : String} {n : Nat} : ':' ∉ name.toList →
      IsNumeral valueBound value.toList n → Sets (name ++ ":" ++ value) (name, some n)

/-- What a line says. -/
inductive Statement where
  | nothing
  | nameserver (server : Server)
  | search (names : List String)
  | options (settings : List Setting)
  deriving DecidableEq, Repr

namespace Statement

def server? : Statement → Option Server
  | nameserver s => some s
  | _ => none

def names? : Statement → Option (List String)
  | search names => some names
  | _ => none

def settings : Statement → List Setting
  | options settings => settings
  | _ => []

end Statement

/-- The words of a line. -/
def lineWords (line : List Char) : List String := (words line).map String.ofList

/-- The lines of the format, and what each of them says. -/
inductive Says (line : List Char) : Statement → Prop where
  | blank : trimEnd line = [] → Says line .nothing
  | comment {mark : Char} {text : List Char} : trimEnd line = mark :: text →
      mark = ';' ∨ mark = '#' → Says line .nothing
  | nameserver {w : String} {s : Server} : lineWords line = ["nameserver", w] →
      Server.ofString? w = some s → Says line (.nameserver s)
  | domain {name : String} : lineWords line = ["domain", name] →
      (DomainName.ofString? name).isSome → Says line (.search [name])
  | search {names : List String} : lineWords line = "search" :: names →
      (∀ name ∈ names, (DomainName.ofString? name).isSome) → Says line (.search names)
  | sortlist {ws : List String} : lineWords line = "sortlist" :: ws → Says line .nothing
  | options {ws : List String} {settings : List Setting} : lineWords line = "options" :: ws →
      List.Forall₂ Sets ws settings → Says line (.options settings)

/-- The value that an option is given last. -/
def lastValue? (name : String) (settings : List Setting) : Option Nat :=
  (settings.filterMap fun s => if s.1 = name then s.2 else none).getLast?

/-- What settings make of a configuration. -/
def setting (c : Config) (settings : List Setting) : Config :=
  { c with
    protocol := if ("use-vc", none) ∈ settings then .tcp else c.protocol
    rotate := c.rotate || decide (("rotate", none) ∈ settings)
    timeout := ((lastValue? "timeout" settings).map (· * 1000)).getD c.timeout
    ndots := (lastValue? "ndots" settings).getD c.ndots }

/-- What statements make of a configuration. -/
def stating (c : Config) (sts : List Statement) : Config :=
  { c.setting (sts.flatMap Statement.settings) with
    servers := c.servers ++ sts.filterMap Statement.server?
    search := ((sts.filterMap Statement.names?).getLast?.map SearchList.ofNames).getD c.search }

@[simp] theorem lastValue?_nil (name : String) : lastValue? name [] = none := rfl

theorem lastValue?_append (name : String) (ss ts : List Setting) :
    lastValue? name (ss ++ ts) = (lastValue? name ts).or (lastValue? name ss) := by
  rw [lastValue?, List.filterMap_append, List.getLast?_append]
  rfl

@[simp] theorem setting_nil (c : Config) : c.setting [] = c := by
  simp [setting, lastValue?]

theorem setting_append (c : Config) (ss ts : List Setting) :
    c.setting (ss ++ ts) = (c.setting ss).setting ts := by
  simp only [setting, lastValue?_append, Option.map_or, Option.getD_or, List.mem_append,
    Bool.decide_or, Bool.or_assoc]
  congr 1
  split <;> split <;> simp_all

@[simp] theorem stating_nil (c : Config) : c.stating [] = c := by
  simp [stating]

theorem stating_append (c : Config) (as bs : List Statement) :
    c.stating (as ++ bs) = (c.stating as).stating bs := by
  simp only [stating, List.flatMap_append, setting_append, List.filterMap_append,
    List.getLast?_append, Option.map_or, Option.getD_or, List.append_assoc]
  rfl

theorem lastValue?_singleton (name : String) (s : Setting) :
    lastValue? name [s] = if s.1 = name then s.2 else none := by
  simp only [lastValue?, List.filterMap_cons, List.filterMap_nil]
  split <;> simp_all

theorem lastValue?_singleton_eq_none {name other : String} {value : Option Nat}
    (h : ∀ n, name = other → value = some n → False) : lastValue? other [(name, value)] = none := by
  rw [lastValue?_singleton]
  split
  · rename_i hname
    cases value with
    | none => rfl
    | some n => exact (h n hname rfl).elim
  · rfl

theorem setOption_eq (c : Config) (name : String) (value : Option Nat) :
    c.setOption name value = c.setting [(name, value)] := by
  unfold setOption
  split
  · simp [setting, lastValue?_singleton]
  · simp [setting, lastValue?_singleton]
  · simp [setting, lastValue?_singleton]
  · simp [setting, lastValue?_singleton]
  · rename_i hndots htimeout hrotate htcp
    have hr : ("rotate", none) ∉ [(name, value)] := by simpa [eq_comm] using hrotate
    have ht : ("use-vc", none) ∉ [(name, value)] := by simpa [eq_comm] using htcp
    rw [setting, lastValue?_singleton_eq_none hndots, lastValue?_singleton_eq_none htimeout,
      if_neg ht, decide_eq_false hr, Bool.or_false]
    rfl

theorem option?_eq_some_iff {w : String} {s : Setting} : option? w.toList = some s ↔ Sets w s := by
  constructor
  · intro h
    unfold option? at h
    split at h
    · rename_i name hsplit
      obtain ⟨hw, hname⟩ := eq_of_splitFirst_none hsplit
      cases h
      rw [← hw, String.ofList_toList]
      exact .bare fun hmem => absurd (hname _ (hw ▸ hmem)) (by simp)
    · rename_i name value hsplit
      obtain ⟨⟨colon, hcolon, hw⟩, hname⟩ := eq_of_splitFirst_some hsplit
      obtain ⟨n, hn, rfl⟩ := Option.map_eq_some_iff.mp h
      have hparts : w = String.ofList name ++ ":" ++ String.ofList value := by
        apply String.ext
        simp [hw, eq_of_beq hcolon]
      rw [hparts]
      refine .valued ?_ ?_
      · rw [String.toList_ofList]
        exact fun hmem => absurd (hname _ hmem) (by simp)
      · rwa [String.toList_ofList, ← signedNumeral_eq_some_iff]
  · intro h
    cases h with
    | bare hname =>
      rw [option?, splitFirst_uncut (uncut_of_notMem hname)]
      dsimp only
      rw [String.ofList_toList]
    | @valued name value n hname hn =>
      have hparts : (name ++ ":" ++ value).toList = name.toList ++ ':' :: value.toList := by simp
      rw [option?, hparts,
        splitFirst_append_cut (uncut_of_notMem hname) (beq_self_eq_true ':')]
      dsimp only
      rw [signedNumeral_eq_some_iff.mpr hn, String.ofList_toList]
      rfl

theorem option?_eq_none_iff {w : String} :
    option? w.toList = none ↔ ¬ ∃ setting, Sets w setting := by
  rw [Option.eq_none_iff_forall_ne_some, not_exists]
  exact forall_congr' fun setting => option?_eq_some_iff.not

theorem readOptions_append (c : Config) (ws more : List (List Char)) :
    c.readOptions (ws ++ more) = (c.readOptions ws).andThen fun d => d.readOptions more := by
  induction ws generalizing c with
  | nil => rfl
  | cons w ws ih =>
    rw [List.cons_append, readOptions, readOptions]
    split
    · rfl
    · exact ih _

theorem readOptions_of_sets {ws : List String} {settings : List Setting}
    (h : List.Forall₂ Sets ws settings) (c : Config) :
    c.readOptions (ws.map String.toList) = (c.setting settings).done := by
  induction h generalizing c with
  | nil => rw [setting_nil]; rfl
  | @cons w s ws settings hw _ ih =>
    rw [List.map_cons, readOptions, option?_eq_some_iff.mpr hw]
    dsimp only
    rw [ih, setOption_eq, ← setting_append]
    rfl

theorem exists_sets_of_readOptions {ws : List String} {c : Config}
    (h : (c.readOptions (ws.map String.toList)).fault = none) :
    ∃ settings, List.Forall₂ Sets ws settings := by
  induction ws generalizing c with
  | nil => exact ⟨[], .nil⟩
  | cons w ws ih =>
    rw [List.map_cons, readOptions] at h
    split at h
    · cases h
    · rename_i name value hw
      obtain ⟨settings, hsettings⟩ := ih h
      exact ⟨_, .cons (option?_eq_some_iff.mp hw) hsettings⟩

theorem words_eq_of_lineWords {line : List Char} {ws : List String} (h : lineWords line = ws) :
    words line = ws.map String.toList := by
  rw [← h, lineWords, List.map_map]
  exact (List.map_id'' (fun w => String.toList_ofList) _).symm

/-- The words that a line of the format can begin with. -/
def keywords : List String := ["nameserver", "domain", "search", "sortlist", "options"]

/-- No keyword looks like a comment. -/
theorem isSilent_of_keyword {line : List Char} {keyword : String} {ws : List String}
    (h : lineWords line = keyword :: ws) (hk : keyword ∈ keywords) : isSilent line = false := by
  have hhead : ∀ k ∈ keywords, k.toList.head? ≠ some ';' ∧ k.toList.head? ≠ some '#' := by decide
  obtain ⟨hsemi, hhash⟩ := hhead keyword hk
  have hwords := words_eq_of_lineWords h
  rw [← words_trimEnd] at hwords
  unfold isSilent
  split
  · rename_i hnil
    rw [hnil] at hwords
    cases hwords
  · rename_i mark text hline
    by_cases hmark : mark = ';' ∨ mark = '#'
    · have hblank : isBlank mark = false := by rcases hmark with rfl | rfl <;> decide
      obtain ⟨w, rest, hmarked⟩ := words_cons hblank text
      rw [hline, hmarked] at hwords
      obtain ⟨hw, _⟩ := List.cons.inj hwords
      rw [← hw] at hsemi hhash
      rcases hmark with rfl | rfl <;> contradiction
    · simpa using hmark

theorem readLine_of_keyword {line : List Char} {keyword : String} {ws : List String}
    (h : lineWords line = keyword :: ws) (hk : keyword ∈ keywords) (c : Config) :
    c.readLine line = c.readWords (keyword.toList :: ws.map String.toList) := by
  rw [readLine, isSilent_of_keyword h hk, words_eq_of_lineWords h]
  rfl

theorem stating_nothing (c : Config) : c.stating [.nothing] = c := by
  have h : c.stating [.nothing] = c.stating [] := rfl
  rw [h, stating_nil]

theorem stating_nameserver (c : Config) (s : Server) :
    c.stating [.nameserver s] = c.addServer s := by
  simp [stating, addServer, Statement.settings, Statement.server?, Statement.names?]

theorem stating_search (c : Config) (names : List String) :
    c.stating [.search names] = { c with search := SearchList.ofNames names } := by
  simp [stating, Statement.settings, Statement.server?, Statement.names?]

theorem stating_options (c : Config) (settings : List Setting) :
    c.stating [.options settings] = c.setting settings := by
  simp [stating, setting, Statement.settings, Statement.server?, Statement.names?]

theorem readNameserver_ofString? {w : String} {s : Server} (h : Server.ofString? w = some s)
    (c : Config) (more : List (List Char)) :
    c.readNameserver (w.toList :: more) = (c.addServer s).doneIfNone more := by
  change Server.ofChars? w.toList = some s at h
  rw [readNameserver, h]

theorem readDomain_ofValid {name : String} (h : (DomainName.ofString? name).isSome) (c : Config)
    (more : List (List Char)) : c.readDomain (name.toList :: more) =
      { c with search := SearchList.ofNames [name] }.doneIfNone more := by
  have hpush : SearchList.empty.push? name = some (SearchList.ofNames [name]) :=
    @SearchList.push?_ofNames [] name h
  rw [readDomain, String.ofList_toList, hpush]

theorem readSearch_ofValid {names : List String}
    (h : ∀ name ∈ names, (DomainName.ofString? name).isSome) (c : Config) :
    c.readSearch (names.map String.toList) =
      { c with search := SearchList.ofNames names }.done := by
  have hpush : SearchList.empty.pushAll? names = some (SearchList.ofNames names) :=
    @SearchList.pushAll?_ofNames [] names h
  have hnames : (names.map String.toList).map String.ofList = names := by simp
  rw [readSearch, hnames, hpush]

theorem readLine_statement {line : List Char} {st : Statement} (h : Says line st) (c : Config) :
    c.readLine line = (c.stating [st]).done := by
  cases h with
  | blank h =>
    rw [stating_nothing, readLine, isSilent, h]
    rfl
  | comment h hmark =>
    rw [stating_nothing, readLine, isSilent, h]
    rcases hmark with rfl | rfl <;> rfl
  | nameserver h hs =>
    rw [readLine_of_keyword h (by decide), stating_nameserver, readWords, String.ofList_toList]
    exact readNameserver_ofString? hs c []
  | domain h hname =>
    rw [readLine_of_keyword h (by decide), stating_search, readWords, String.ofList_toList]
    exact readDomain_ofValid hname c []
  | search h hnames =>
    rw [readLine_of_keyword h (by decide), stating_search, readWords, String.ofList_toList]
    exact readSearch_ofValid hnames c
  | sortlist h =>
    rw [readLine_of_keyword h (by decide), stating_nothing, readWords, String.ofList_toList]
    rfl
  | options h hsets =>
    rw [readLine_of_keyword h (by decide), stating_options, readWords, String.ofList_toList]
    exact readOptions_of_sets hsets c

theorem eq_nil_of_doneIfNone {c : Config} {more : List (List Char)}
    (h : (c.doneIfNone more).fault = none) : more = [] := by
  unfold doneIfNone at h
  split at h
  · rename_i hmore
    exact List.isEmpty_iff.mp hmore
  · cases h

theorem readNameserver_cases (c : Config) (ws : List String) :
    (∃ w more s, ws = w :: more ∧ Server.ofString? w = some s) ∨
      c.readNameserver (ws.map String.toList) = c.broken := by
  cases ws with
  | nil => exact .inr rfl
  | cons w more =>
    cases hs : Server.ofChars? w.toList with
    | none =>
      right
      rw [List.map_cons, readNameserver, hs]
    | some s => exact .inl ⟨w, more, s, rfl, hs⟩

theorem readDomain_cases (c : Config) (ws : List String) :
    (∃ name more, ws = name :: more ∧ (DomainName.ofString? name).isSome) ∨
      c.readDomain (ws.map String.toList) = c.broken := by
  cases ws with
  | nil => exact .inr rfl
  | cons name more =>
    cases hl : SearchList.empty.push? name with
    | none =>
      right
      rw [List.map_cons, readDomain, String.ofList_toList, hl]
    | some l =>
      left
      refine ⟨name, more, rfl, ?_⟩
      rw [← SearchList.push?_isSome_iff, hl]
      rfl

theorem readSearch_cases (c : Config) (ws : List String) :
    (∀ name ∈ ws, (DomainName.ofString? name).isSome) ∨
      c.readSearch (ws.map String.toList) = c.broken := by
  have hnames : (ws.map String.toList).map String.ofList = ws := by simp
  cases hl : SearchList.empty.pushAll? ws with
  | none =>
    right
    rw [readSearch, hnames, hl]
  | some l => exact .inl (SearchList.valid_of_pushAll? hl)

theorem exists_of_readNameserver {ws : List String} {c : Config}
    (h : (c.readNameserver (ws.map String.toList)).fault = none) :
    ∃ w s, ws = [w] ∧ Server.ofString? w = some s := by
  rcases readNameserver_cases c ws with ⟨w, more, s, rfl, hs⟩ | hbroken
  · rw [List.map_cons, readNameserver_ofString? hs] at h
    cases List.map_eq_nil_iff.mp (eq_nil_of_doneIfNone h)
    exact ⟨w, s, rfl, hs⟩
  · rw [hbroken] at h
    cases h

theorem exists_of_readDomain {ws : List String} {c : Config}
    (h : (c.readDomain (ws.map String.toList)).fault = none) :
    ∃ name, ws = [name] ∧ (DomainName.ofString? name).isSome := by
  rcases readDomain_cases c ws with ⟨name, more, rfl, hname⟩ | hbroken
  · rw [List.map_cons, readDomain_ofValid hname] at h
    cases List.map_eq_nil_iff.mp (eq_nil_of_doneIfNone h)
    exact ⟨name, rfl, hname⟩
  · rw [hbroken] at h
    cases h

theorem valid_of_readSearch {ws : List String} {c : Config}
    (h : (c.readSearch (ws.map String.toList)).fault = none) :
    ∀ name ∈ ws, (DomainName.ofString? name).isSome := by
  rcases readSearch_cases c ws with hnames | hbroken
  · exact hnames
  · rw [hbroken] at h
    cases h

theorem exists_says_of_readWords {line : List Char} {c : Config}
    (h : (c.readWords (words line)).fault = none) : ∃ st, Says line st := by
  have hwords : words line = (lineWords line).map String.toList := words_eq_of_lineWords rfl
  rw [hwords] at h
  generalize hline : lineWords line = ws at h
  cases ws with
  | nil => cases h
  | cons keyword ws =>
    rw [List.map_cons, readWords, String.ofList_toList] at h
    split at h
    · obtain ⟨w, s, rfl, hs⟩ := exists_of_readNameserver h
      exact ⟨_, .nameserver hline hs⟩
    · obtain ⟨name, rfl, hname⟩ := exists_of_readDomain h
      exact ⟨_, .domain hline hname⟩
    · exact ⟨_, .search hline (valid_of_readSearch h)⟩
    · exact ⟨_, .sortlist hline⟩
    · obtain ⟨settings, hsettings⟩ := exists_sets_of_readOptions h
      exact ⟨_, .options hline hsettings⟩
    · cases h

theorem exists_says_of_readLine {line : List Char} {c : Config}
    (h : (c.readLine line).fault = none) : ∃ st, Says line st := by
  unfold readLine at h
  split at h
  · rename_i hsilent
    unfold isSilent at hsilent
    split at hsilent
    · exact ⟨_, .blank (by assumption)⟩
    · exact ⟨_, .comment (by assumption) (by simpa using hsilent)⟩
  · exact exists_says_of_readWords h

theorem readLines_statements {text : List (List Char)} {sts : List Statement}
    (h : List.Forall₂ Says text sts) (c : Config) :
    c.readLines (text.map encode) = (c.stating sts).done := by
  induction h generalizing c with
  | nil =>
    rw [stating_nil]
    rfl
  | @cons line st text sts hline _ ih =>
    rw [readLines_encode_cons, readLine_statement hline]
    change (c.stating [st]).readLines (text.map encode) = _
    rw [ih, ← stating_append]
    rfl

theorem exists_says_of_readLines {text : List (List Char)} {c : Config}
    (h : (c.readLines (text.map encode)).fault = none) : ∃ sts, List.Forall₂ Says text sts := by
  induction text generalizing c with
  | nil => exact ⟨[], .nil⟩
  | cons line text ih =>
    have hline : (c.readLine line).fault = none := by
      cases hf : (c.readLine line).fault with
      | none => rfl
      | some fault =>
        rw [readLines_encode_cons, Reading.andThen, hf] at h
        rw [← hf]
        exact h
    obtain ⟨st, hst⟩ := exists_says_of_readLine hline
    rw [readLines_encode_cons, readLine_statement hst] at h
    obtain ⟨sts, hsts⟩ := ih h
    exact ⟨st :: sts, .cons hst hsts⟩

theorem read_statements {text : List Char} {sts : List Statement}
    (h : List.Forall₂ Says (lines text) sts) (c : Config) :
    c.read (encode text) = (c.stating sts).done := by
  rw [read_encode]
  exact readLines_statements h c

theorem exists_says_of_read {c d : Config} {text : List Char}
    (h : c.read (encode text) = d.done) :
    ∃ sts, List.Forall₂ Says (lines text) sts ∧ d = c.stating sts := by
  have hfault : (c.read (encode text)).fault = none := congrArg Reading.fault h
  rw [read_encode] at hfault
  obtain ⟨sts, hsts⟩ := exists_says_of_readLines hfault
  rw [read_statements hsts] at h
  exact ⟨sts, hsts, (congrArg Reading.config h).symm⟩

end Config

end HostLookup
