import HostLookup.Proofs.Name.Labels
import HostLookup.Proofs.Name.Spelling

/-!
Hosts as names. A dot is put behind a host that has none at its end before the host is read as a
name. This makes no difference to the name, unless the host ends in a backslash: it spells no name
then, and with the dot behind it, which is escaped, it may.
-/
set_option autoImplicit false

namespace HostLookup.DomainName

/-- A text spells a name: a lone dot spells the root, and otherwise there has to be a label. -/
inductive Names : List Char → DomainName → Prop where
  | root : Names ['.'] root
  | labels {cs : List Char} {ss : List Symbol} {ls : List Label} :
      Spelling ss cs → ss ≠ [] → Makes 0 [] ss ls → Names cs ⟨ls⟩

variable {bs cs : List Char} {ss : List Symbol} {ls : List Label} {name m n : DomainName}

theorem not_makes_separator {used : Nat} : ¬ Makes used [] (.separator :: ss) ls := by
  intro h
  cases h with
  | separator hl => exact hl rfl
  | added hadds => cases hadds

theorem ofSymbols_eq_some_iff : ofSymbols ss = some name ↔
    ss = [.separator] ∧ name = root ∨ ss ≠ [] ∧ Makes 0 [] ss name.labels := by
  unfold ofSymbols
  split
  · simp
  · simp [not_makes_separator, eq_comm]
  · rename_i hnil hroot
    rw [Option.map_eq_some_iff]
    constructor
    · rintro ⟨ls, hls, rfl⟩
      exact .inr ⟨hnil, assemble_eq_some_iff.mp hls⟩
    · rintro (⟨hss, _⟩ | ⟨_, hls⟩)
      · exact absurd hss hroot
      · exact ⟨name.labels, assemble_eq_some_iff.mpr hls, rfl⟩

theorem ofChars?_eq_some_iff : ofChars? cs = some name ↔ Names cs name := by
  rw [ofChars?, Option.bind_eq_some_iff]
  constructor
  · rintro ⟨ss, hss, h⟩
    have hspelling := symbols_eq_some_iff.mp hss
    rcases ofSymbols_eq_some_iff.mp h with ⟨rfl, rfl⟩ | ⟨hne, hls⟩
    · obtain ⟨bs, w, hbs, hw, rfl⟩ := @Spelling.of_concat _ _ [] hspelling
      cases hbs
      cases hw
      exact .root
    · exact .labels hspelling hne hls
  · intro h
    cases h with
    | root => exact ⟨[.separator], rfl, rfl⟩
    | labels hspelling hne hls =>
      exact ⟨_, symbols_eq_some_iff.mpr hspelling, ofSymbols_eq_some_iff.mpr (.inr ⟨hne, hls⟩)⟩

theorem Names.endsOpen_eq_false (h : Names cs name) : endsOpen cs = false := by
  cases h with
  | root => rfl
  | labels hspelling => exact hspelling.endsOpen_eq_false

theorem Spelling.ne_nil (h : Spelling ss cs) (hcs : cs ≠ []) : ss ≠ [] := by
  rintro rfl
  cases h
  exact hcs rfl

theorem Spelling.getLast?_ne (h : Spelling ss cs) (hdot : cs.getLast? ≠ some '.') :
    ss.getLast? ≠ some .separator := by
  intro hlast
  obtain ⟨ts, rfl⟩ := List.getLast?_eq_some_iff.mp hlast
  obtain ⟨bs, w, _, hw, rfl⟩ := h.of_concat
  cases hw
  exact hdot List.getLast?_concat

/-- A name may be followed by a dot, if there is none at its end. -/
theorem Names.concat_dot (h : Names cs name) (hdot : cs.getLast? ≠ some '.') :
    Names (cs ++ ['.']) name := by
  cases h with
  | root => exact absurd rfl hdot
  | labels hspelling hne hls =>
    have hdotted := hspelling.append (.cons .separator .nil)
    exact .labels hdotted (by simp) (hls.concat (hspelling.getLast?_ne hdot) (.inl hne))

/-- Without the dot at its end, a name is the same name, unless the dot was escaped. -/
theorem Names.of_concat_dot (h : Names (cs ++ ['.']) name) (hcs : cs ≠ [])
    (hopen : endsOpen cs = false) : Names cs name := by
  generalize htext : cs ++ ['.'] = text at h
  cases h with
  | root => exact absurd (List.append_cancel_right (htext : cs ++ ['.'] = [] ++ ['.'])) hcs
  | labels hspelling hne hls =>
    rw [← htext] at hspelling
    rcases hspelling.of_concat_dot with ⟨ss, rfl, hss⟩ | ⟨ss, bs, rfl, hbs, rfl⟩
    · exact .labels hss (hss.ne_nil hcs) hls.of_concat.1
    · rw [hbs.endsOpen_append] at hopen
      cases hopen

theorem names_concat_dot_iff (hcs : cs ≠ []) (hdot : cs.getLast? ≠ some '.')
    (hopen : endsOpen cs = false) : Names (cs ++ ['.']) name ↔ Names cs name :=
  ⟨fun h => h.of_concat_dot hcs hopen, fun h => h.concat_dot hdot⟩

/-- Names with a dot between them have the labels of both, if there is room for them. -/
theorem Names.append (h : Names bs m) (hdot : bs.getLast? ≠ some '.') (h' : Names cs n)
    (hroot : cs ≠ ['.']) (hroom : (wire ⟨m.labels ++ n.labels⟩).length ≤ 255) :
    Names (bs ++ '.' :: cs) ⟨m.labels ++ n.labels⟩ := by
  cases h with
  | root => exact absurd rfl hdot
  | @labels _ ss ls hspelling hne hls =>
    cases h' with
    | root => exact absurd rfl hroot
    | @labels _ ts ms hspelling' _ hms =>
      have hall : Spelling (ss ++ .separator :: ts) (bs ++ '.' :: cs) :=
        hspelling.append (.cons .separator hspelling')
      have hfirst := hls.concat (hspelling.getLast?_ne hdot) (.inl hne)
      -- The labels behind were made where nothing was taken; they are made here as well.
      rw [length_wire, size_append] at hroom
      have hrest : Makes (size ls) [] ts ms := hms.elsewhere rfl (Nat.le_of_succ_le_succ hroom)
      refine .labels hall (by simp) (hfirst.append rfl ?_)
      rwa [Nat.zero_add]

theorem Names.valid (h : Names cs name) : name.Valid := by
  cases h with
  | root => exact List.forall_mem_nil _
  | labels _ _ hls => exact hls.valid (Nat.zero_le _)

/-- A name that is spelled takes at most 256 octets, the root included. -/
theorem Names.length_wire_le (h : Names cs name) : name.wire.length ≤ 256 := by
  cases h with
  | root => decide
  | @labels _ _ ls _ _ hls =>
    have hsize := @Makes.size_le 0 0 [] _ ls hls rfl (Nat.zero_le _)
    rw [length_wire]
    omega

section Host

variable {host text : String}

/-- The name that a host spells, unless it is the root. -/
def spelled? (host : String) : Option DomainName :=
  if host = "" ∨ host = "." then none else ofString? host

theorem ofString?_eq_some_iff : ofString? text = some name ↔ Names text.toList name :=
  ofChars?_eq_some_iff

theorem endsInDot_eq_false_iff : endsInDot host = false ↔ host.toList.getLast? ≠ some '.' := by
  rw [endsInDot, beq_eq_false_iff_ne]

theorem endsInDot_push_dot (text : String) : endsInDot (text.push '.') = true := by
  rw [endsInDot, String.toList_push, List.getLast?_concat]
  rfl

/-- The host with a dot at its end. -/
def dotted (host : String) : String := if endsInDot host then host else host.push '.'

theorem ofHost?_eq_some_iff : ofHost? host = some (text, name) ↔
    (host ≠ "" ∧ host ≠ ".") ∧ text = dotted host ∧ ofString? text = some name := by
  rw [ofHost?, dotted, ← not_or]
  split
  · simp_all
  · rename_i hne
    rw [Option.map_eq_some_iff]
    constructor
    · rintro ⟨n, hn, h⟩
      cases h
      exact ⟨hne, rfl, hn⟩
    · rintro ⟨_, rfl, hn⟩
      exact ⟨name, hn, rfl⟩

/-- The names of hosts are valid. -/
theorem valid_of_ofHost? (h : ofHost? host = some (text, name)) : name.Valid :=
  (ofString?_eq_some_iff.mp (ofHost?_eq_some_iff.mp h).2.2).valid

theorem length_wire_of_ofHost? (h : ofHost? host = some (text, name)) :
    name.wire.length ≤ 256 :=
  (ofString?_eq_some_iff.mp (ofHost?_eq_some_iff.mp h).2.2).length_wire_le

/-- Characters that spell a name with a dot behind them are a host. -/
theorem ofHost?_ofList {cs : List Char} (hcs : cs ≠ []) (hdot : cs.getLast? ≠ some '.')
    (h : ofChars? (cs ++ ['.']) = some name) :
    ofHost? (.ofList cs) = some (.ofList (cs ++ ['.']), name) := by
  have hopen : endsInDot (.ofList cs) = false := by
    rwa [endsInDot_eq_false_iff, String.toList_ofList]
  rw [ofHost?_eq_some_iff, ofString?, String.toList_ofList]
  refine ⟨⟨?_, ?_⟩, ?_, h⟩
  · intro hempty
    rw [← String.toList_inj, String.toList_ofList] at hempty
    exact hcs hempty
  · intro hlone
    rw [← String.toList_inj, String.toList_ofList] at hlone
    subst hlone
    exact hdot rfl
  · rw [dotted, hopen, ← String.toList_inj]
    simp

/-- The host ends in a backslash, and is a name only with the dot that the backslash escapes. -/
def IsUnfinished (host : String) : Prop :=
  endsOpen host.toList = true ∧ (ofString? (host.push '.')).isSome

instance (host : String) : Decidable (IsUnfinished host) :=
  inferInstanceAs (Decidable (_ ∧ _))

theorem getLast?_of_endsOpen {cs : List Char} (h : endsOpen cs = true) :
    cs.getLast? = some '\\' := by
  fun_induction endsOpen cs with
  | case1 => cases h
  | case2 => rfl
  | case3 c cs ih =>
    rw [List.getLast?_cons, List.getLast?_cons, ih h]
    rfl
  | case4 c cs _ _ ih =>
    rw [List.getLast?_cons, ih h]
    rfl

theorem endsOpen_of_notMem {cs : List Char} (h : '\\' ∉ cs) : endsOpen cs = false := by
  apply eq_false_of_ne_true
  intro hopen
  exact h (List.mem_of_getLast? (getLast?_of_endsOpen hopen))

theorem ofString?_dotted (hne : host ≠ "") (hopen : endsOpen host.toList = false) :
    ofString? (dotted host) = ofString? host := by
  unfold dotted
  split
  · rfl
  · rename_i hdot
    rw [Bool.not_eq_true, endsInDot_eq_false_iff] at hdot
    have hcs : host.toList ≠ [] := fun hnil => hne (String.toList_inj.mp hnil)
    apply Option.ext
    intro name
    rw [ofString?_eq_some_iff, ofString?_eq_some_iff, String.toList_push]
    exact names_concat_dot_iff hcs hdot hopen

theorem dotted_of_endsOpen (h : endsOpen host.toList = true) : dotted host = host.push '.' := by
  have hdot : endsInDot host = false := by
    rw [endsInDot_eq_false_iff, getLast?_of_endsOpen h]
    decide
  rw [dotted, hdot]
  rfl

/-- It makes no difference to a host if a dot is put at its end, unless there is one. -/
theorem ofHost?_push_dot (hne : host ≠ "") (hdot : endsInDot host = false) :
    ofHost? (host.push '.') = ofHost? host := by
  have hlone : ¬ (host = "" ∨ host = ".") := by
    rintro (rfl | rfl)
    · exact hne rfl
    · cases hdot
  have hlone' : ¬ (host.push '.' = "" ∨ host.push '.' = ".") := by
    rw [← String.toList_inj, ← String.toList_inj, String.toList_push]
    simpa using hne
  unfold ofHost?
  rw [if_neg hlone, if_neg hlone', endsInDot_push_dot, hdot]
  rfl

theorem ofString?_eq_none_of_endsOpen (h : endsOpen text.toList = true) :
    ofString? text = none := by
  cases hname : ofString? text with
  | none => rfl
  | some name =>
    rw [(ofString?_eq_some_iff.mp hname).endsOpen_eq_false] at h
    cases h

/-- A host is taken for the name that it spells, unless it is unfinished. -/
theorem map_ofHost?_eq_spelled?_iff :
    (ofHost? host).map Prod.snd = spelled? host ↔ ¬ IsUnfinished host := by
  have hmap : (ofHost? host).map Prod.snd =
      if host = "" ∨ host = "." then none else ofString? (dotted host) := by
    unfold ofHost?
    split
    · rfl
    · rw [Option.map_map]
      exact Option.map_id'
  rw [hmap, spelled?, IsUnfinished]
  by_cases htrivial : host = "" ∨ host = "."
  · rw [if_pos htrivial, if_pos htrivial]
    have hopen : endsOpen host.toList = false := by
      rcases htrivial with rfl | rfl <;> rfl
    simp [hopen]
  · rw [if_neg htrivial, if_neg htrivial]
    cases hopen : endsOpen host.toList with
    | false => simp [ofString?_dotted (fun hempty => htrivial (.inl hempty)) hopen]
    | true => simp [dotted_of_endsOpen hopen, ofString?_eq_none_of_endsOpen hopen]

end Host

end HostLookup.DomainName
