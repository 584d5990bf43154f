import HostLookup.Proofs.Config.RoundTrip

/-!
Unknown options. One that is of the format sets nothing, so a text is read the same way with it and
without it, whatever stands around it. Its value is read before its name is looked at, however: an
unknown option with anything but a number behind its colon makes the text it is in unreadable.
-/
set_option autoImplicit false

namespace HostLookup.Config

open Text

/-- An option that is not one of those that can be set. -/
structure IsUnknown (word : String) : Prop where
  isWord : IsWord word.toList
  ne_rotate : word ≠ "rotate"
  ne_tcp : word ≠ "use-vc"
  ne_ndots : ∀ value, word ≠ "ndots" ++ ":" ++ value
  ne_timeout : ∀ value, word ≠ "timeout" ++ ":" ++ value

/-- Taking a word out of a line of options makes one text the other. -/
inductive Drops (word : String) (text shorter : Octets) : Prop where
  | option {above below : List Octets} {line line' : List Char} {before behind : List String} :
      split (· == lineFeed) text = above ++ encode line :: below →
      split (· == lineFeed) shorter = above ++ encode line' :: below →
      lineWords line = "options" :: (before ++ word :: behind) →
      lineWords line' = "options" :: (before ++ behind) →
      Drops word text shorter

/-- A word that can be taken out of every line of options without changing what is read. -/
def Ignored (word : String) : Prop :=
  ∀ (c : Config) (text shorter : Octets), Drops word text shorter → c.read text = c.read shorter

variable {word : String} {text shorter : Octets}

theorem readLine_options {line : List Char} {ws : List String}
    (h : lineWords line = "options" :: ws) (c : Config) :
    c.readLine line = c.readOptions (ws.map String.toList) := by
  rw [readLine_of_keyword h (by decide), readWords, String.ofList_toList]
  rfl

theorem IsUnknown.setOption_eq_self (h : IsUnknown word) {name : String} {value : Option Nat}
    (hw : Sets word (name, value)) (c : Config) : c.setOption name value = c := by
  cases hw with
  | bare =>
    unfold setOption
    split
    · contradiction
    · contradiction
    · exact absurd rfl h.ne_rotate
    · exact absurd rfl h.ne_tcp
    · rfl
  | @valued _ value n =>
    unfold setOption
    split
    · exact absurd rfl (h.ne_ndots value)
    · exact absurd rfl (h.ne_timeout value)
    · contradiction
    · contradiction
    · rfl

theorem IsUnknown.readOptions_cons (h : IsUnknown word) {setting : Setting}
    (hw : Sets word setting) (c : Config) (more : List (List Char)) :
    c.readOptions (word.toList :: more) = c.readOptions more := by
  rw [readOptions, option?_eq_some_iff.mpr hw]
  dsimp only
  rw [h.setOption_eq_self hw]

theorem IsUnknown.ignored (h : IsUnknown word) {setting : Setting} (hw : Sets word setting) :
    Ignored word := by
  rintro c text shorter ⟨htext, hshorter, hline, hline'⟩
  rw [read_eq_readLines, read_eq_readLines, htext, hshorter, readLines_append, readLines_append]
  -- What stands above and below is read alike, so only the line itself has to be looked at.
  refine congrArg _ (funext fun d => ?_)
  rw [readLines, readLines, readOctets_encode, readOctets_encode, readLine_options hline,
    readLine_options hline', List.map_append, List.map_append, List.map_cons, readOptions_append,
    readOptions_append]
  refine congrArg (Reading.andThen · _) (congrArg _ (funext fun e => ?_))
  exact h.readOptions_cons hw e _

/-- A text that can be read has options of the format only. -/
theorem Drops.exists_sets (h : Drops word text shorter) {c : Config}
    (hread : (c.read text).fault = none) : ∃ setting, Sets word setting := by
  obtain ⟨htext, _, hline, _⟩ := h
  rw [read_eq_readLines, htext, readLines_append] at hread
  obtain ⟨_, hrest⟩ := Reading.fault_andThen_eq_none_iff.mp hread
  rw [readLines] at hrest
  obtain ⟨hoptions, _⟩ := Reading.fault_andThen_eq_none_iff.mp hrest
  rw [readOctets_encode, readLine_options hline] at hoptions
  obtain ⟨settings, hsettings⟩ := exists_sets_of_readOptions hoptions
  have hflipped : List.Forall₂ (flip Sets) settings _ := List.Forall₂.flip hsettings
  obtain ⟨setting, _, hword⟩ :=
    exists_of_mem_forall₂ hflipped (List.mem_append_right _ List.mem_cons_self)
  exact ⟨setting, hword⟩

/-- A text of one line of options. -/
def optionsText (ws : List String) : Octets := encode (spaced ("options" :: ws))

theorem split_optionsText {ws : List String} (h : ∀ w ∈ ws, IsWord w.toList) :
    split (· == lineFeed) (optionsText ws) = [encode (spaced ("options" :: ws))] := by
  have hwords : ∀ w ∈ "options" :: ws, IsWord w.toList :=
    List.forall_mem_cons.mpr ⟨isWord_keyword (by decide), h⟩
  have hlines : lines (spaced ("options" :: ws)) = [spaced ("options" :: ws)] :=
    split_eq_singleton (uncut_of_notMem (newline_notMem_spaced hwords))
  rw [optionsText, split_encode, hlines, List.map_singleton]

theorem lineWords_optionsText {ws : List String} (h : ∀ w ∈ ws, IsWord w.toList) :
    lineWords (spaced ("options" :: ws)) = "options" :: ws :=
  lineWords_spaced (List.forall_mem_cons.mpr ⟨isWord_keyword (by decide), h⟩)

theorem drops_optionsText (h : IsWord word.toList) :
    Drops word (optionsText [word]) (optionsText []) := by
  have hword : ∀ w ∈ [word], IsWord w.toList := by simpa using h
  exact @Drops.option _ _ _ [] [] _ _ [] [] (split_optionsText hword) (split_optionsText nofun)
    (lineWords_optionsText hword) (lineWords_optionsText nofun)

theorem exists_sets_of_ignored (hw : IsWord word.toList) (h : Ignored word) :
    ∃ setting, Sets word setting := by
  have hdrops := drops_optionsText hw
  refine hdrops.exists_sets (c := initial) ?_
  rw [h initial _ _ hdrops]
  decide +kernel

/-- An unknown option can be taken out of every line without changing what is read just if it has
no colon, or a number behind its first one. With any other unknown option no text can be read. -/
theorem ignored_iff_sets (h : IsUnknown word) :
    (Ignored word ↔ ∃ setting, Sets word setting) ∧
      ∀ (c : Config) (text shorter : Octets), Drops word text shorter →
        (¬ ∃ setting, Sets word setting) → (c.read text).fault ≠ none := by
  refine ⟨⟨exists_sets_of_ignored h.isWord, fun ⟨_, hw⟩ => h.ignored hw⟩, ?_⟩
  intro c text shorter hdrops hnone hread
  exact hnone (hdrops.exists_sets hread)

theorem isUnknown_family {value : String} (h : IsWord value.toList) :
    IsUnknown ("family:" ++ value) := by
  have hword : IsWord ("family:" ++ value).toList := by
    have hfamily : IsWord "family:".toList := by decide +kernel
    rw [String.toList_append]
    exact hfamily.append h
  have hne : ∀ option : String, option.toList.head? ≠ some 'f' → "family:" ++ value ≠ option := by
    rintro _ hhead rfl
    simp at hhead
  exact ⟨hword, hne _ (by decide), hne _ (by decide), fun _ => hne _ (by simp),
    fun _ => hne _ (by simp)⟩

/-- Both of these options are unknown, but only a text with the first one can be read. -/
theorem ignored_iff_sets_family :
    IsUnknown "family:4" ∧ Ignored "family:4" ∧
      IsUnknown "family:inet" ∧ ¬ Ignored "family:inet" ∧
      (initial.read (optionsText ["family:inet"])).fault ≠ none ∧
      (initial.read (optionsText [])).fault = none := by
  have hnumber : IsUnknown "family:4" := @isUnknown_family "4" (by decide +kernel)
  have hname : IsUnknown "family:inet" := @isUnknown_family "inet" (by decide +kernel)
  have hsets : Sets "family:4" ("family", some 4) := option?_eq_some_iff.mp (by decide +kernel)
  have hnone : ¬ ∃ setting, Sets "family:inet" setting :=
    option?_eq_none_iff.mp (by decide +kernel)
  exact ⟨hnumber, (ignored_iff_sets hnumber).1.mpr ⟨_, hsets⟩, hname,
    fun h => hnone ((ignored_iff_sets hname).1.mp h),
    (ignored_iff_sets hname).2 _ _ _ (drops_optionsText hname.isWord) hnone, by decide +kernel⟩

end HostLookup.Config
