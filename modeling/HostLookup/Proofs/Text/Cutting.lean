import HostLookup.Text.Blank

/-!
Texts cut at white space and at colons. A text is what it is cut into: putting words next to each
other with white space in between and cutting them apart again gives the same words.
-/
set_option autoImplicit false

namespace HostLookup.Text

section

variable {α : Type} {cut : α → Bool} {c : α} {cs left right piece : List α}
variable {pieces : List (List α)}

theorem split_append_uncut (hleft : ∀ c ∈ left, cut c = false)
    (h : split cut right = piece :: pieces) :
    split cut (left ++ right) = (left ++ piece) :: pieces := by
  induction left with
  | nil => exact h
  | cons c left ih =>
    rw [List.cons_append, split, ih fun d hd => hleft d (List.mem_cons_of_mem c hd),
      hleft c List.mem_cons_self]
    rfl

theorem uncut_of_mem_split (h : piece ∈ split cut cs) (hc : c ∈ piece) : cut c = false := by
  induction cs generalizing piece with
  | nil =>
    cases List.mem_singleton.mp h
    cases hc
  | cons d cs ih =>
    rw [split] at h
    split at h
    · rcases List.mem_cons.mp h with rfl | h
      · cases hc
      · exact ih h hc
    · rename_i hd
      obtain ⟨p, pieces, hcs⟩ := List.exists_cons_of_ne_nil (split_ne_nil cut cs)
      rw [hcs] at h ih
      rcases List.mem_cons.mp h with rfl | h
      · rcases List.mem_cons.mp hc with rfl | hc
        · exact eq_false_of_ne_true hd
        · exact ih List.mem_cons_self hc
      · exact ih (List.mem_cons_of_mem p h) hc

theorem subset_of_mem_split (h : piece ∈ split cut cs) : piece ⊆ cs := by
  induction cs generalizing piece with
  | nil =>
    cases List.mem_singleton.mp h
    exact List.nil_subset _
  | cons d cs ih =>
    rw [split] at h
    split at h
    · rcases List.mem_cons.mp h with rfl | h
      · exact List.nil_subset _
      · exact List.subset_cons_of_subset d (ih h)
    · obtain ⟨p, pieces, hcs⟩ := List.exists_cons_of_ne_nil (split_ne_nil cut cs)
      rw [hcs] at h ih
      rcases List.mem_cons.mp h with rfl | h
      · exact List.cons_subset_cons d (ih List.mem_cons_self)
      · exact List.subset_cons_of_subset d (ih (List.mem_cons_of_mem p h))

theorem exists_mem_split (cut : α → Bool) (hc : c ∈ cs) (hcut : cut c = false) :
    ∃ piece ∈ split cut cs, c ∈ piece := by
  obtain ⟨left, right, rfl⟩ := List.append_of_mem hc
  induction left with
  | nil =>
    obtain ⟨piece, pieces, hp⟩ := List.exists_cons_of_ne_nil (split_ne_nil cut right)
    have hone : ∀ d ∈ [c], cut d = false := by simpa using hcut
    have hsplit : split cut (c :: right) = (c :: piece) :: pieces := split_append_uncut hone hp
    exact ⟨_, hsplit ▸ List.mem_cons_self, List.mem_cons_self⟩
  | cons d left ih =>
    obtain ⟨piece, hpiece, hmem⟩ := ih (by simp)
    rw [List.cons_append, split]
    split
    · exact ⟨piece, List.mem_cons_of_mem _ hpiece, hmem⟩
    · obtain ⟨p, pieces, hp⟩ := List.exists_cons_of_ne_nil (split_ne_nil cut (left ++ c :: right))
      rw [hp] at hpiece ⊢
      rcases List.mem_cons.mp hpiece with rfl | hpiece
      · exact ⟨_, List.mem_cons_self, List.mem_cons_of_mem d hmem⟩
      · exact ⟨piece, List.mem_cons_of_mem _ hpiece, hmem⟩

theorem splitFirst_uncut (h : ∀ c ∈ cs, cut c = false) : splitFirst cut cs = (cs, none) := by
  induction cs with
  | nil => rfl
  | cons c cs ih =>
    rw [splitFirst, ih fun d hd => h d (List.mem_cons_of_mem c hd), h c List.mem_cons_self]
    rfl

theorem splitFirst_append_cut (hleft : ∀ c ∈ left, cut c = false) (hc : cut c = true) :
    splitFirst cut (left ++ c :: right) = (left, some right) := by
  induction left with
  | nil => simp [splitFirst, hc]
  | cons d left ih =>
    rw [List.cons_append, splitFirst, ih fun e he => hleft e (List.mem_cons_of_mem d he),
      hleft d List.mem_cons_self]
    rfl

theorem eq_of_splitFirst_none (h : splitFirst cut cs = (left, none)) :
    cs = left ∧ ∀ c ∈ left, cut c = false := by
  induction cs generalizing left with
  | nil =>
    cases h
    exact ⟨rfl, nofun⟩
  | cons c cs ih =>
    rw [splitFirst] at h
    split at h
    · cases h
    · rename_i hc
      obtain ⟨rfl, hnone⟩ := Prod.mk.inj h
      obtain ⟨hcs, huncut⟩ := ih (Prod.ext rfl hnone)
      exact ⟨congrArg (c :: ·) hcs,
        List.forall_mem_cons.mpr ⟨eq_false_of_ne_true hc, huncut⟩⟩

theorem eq_of_splitFirst_some (h : splitFirst cut cs = (left, some right)) :
    (∃ c, cut c = true ∧ cs = left ++ c :: right) ∧ ∀ c ∈ left, cut c = false := by
  induction cs generalizing left with
  | nil => cases h
  | cons c cs ih =>
    rw [splitFirst] at h
    split at h
    · cases h
      exact ⟨⟨c, by assumption, rfl⟩, nofun⟩
    · rename_i hc
      obtain ⟨rfl, hsome⟩ := Prod.mk.inj h
      obtain ⟨⟨d, hd, hcs⟩, huncut⟩ := ih (Prod.ext rfl hsome)
      exact ⟨⟨d, hd, congrArg (c :: ·) hcs⟩,
        List.forall_mem_cons.mpr ⟨eq_false_of_ne_true hc, huncut⟩⟩

/-- Pieces with a cut between each two of them. -/
theorem split_flatMap_cut (hc : cut c = true) (hpiece : ∀ d ∈ piece, cut d = false)
    (hpieces : ∀ p ∈ pieces, ∀ d ∈ p, cut d = false) :
    split cut (piece ++ pieces.flatMap (c :: ·)) = piece :: pieces := by
  induction pieces generalizing piece with
  | nil =>
    rw [List.flatMap_nil, List.append_nil]
    exact split_eq_singleton hpiece
  | cons p pieces ih =>
    obtain ⟨hp, hpieces⟩ := List.forall_mem_cons.mp hpieces
    rw [List.flatMap_cons, List.cons_append, split_append_cut hc, ih hp hpieces,
      split_eq_singleton hpiece]
    rfl

theorem intercalate_cons (c : α) (piece : List α) (pieces : List (List α)) :
    [c].intercalate (piece :: pieces) = piece ++ pieces.flatMap (c :: ·) := by
  induction pieces generalizing piece with
  | nil => simp [List.intercalate]
  | cons p pieces ih =>
    rw [List.flatMap_cons, List.cons_append, ← ih]
    simp [List.intercalate]

theorem split_intercalate (hc : cut c = true) (hne : pieces ≠ [])
    (hpieces : ∀ p ∈ pieces, ∀ d ∈ p, cut d = false) :
    split cut ([c].intercalate pieces) = pieces := by
  obtain ⟨p, pieces, rfl⟩ := List.exists_cons_of_ne_nil hne
  obtain ⟨hp, hpieces⟩ := List.forall_mem_cons.mp hpieces
  rw [intercalate_cons, split_flatMap_cut hc hp hpieces]

end

theorem uncut_of_notMem {d : Char} {cs : List Char} (h : d ∉ cs) : ∀ c ∈ cs, (c == d) = false :=
  fun _ hc => beq_eq_false_iff_ne.mpr (ne_of_mem_of_not_mem hc h)

theorem trimEnd_append (cs : List Char) :
    ∃ blanks, cs = trimEnd cs ++ blanks ∧ ∀ c ∈ blanks, isBlank c = true := by
  refine ⟨(cs.reverse.takeWhile isBlank).reverse, ?_, ?_⟩
  · rw [trimEnd, ← List.reverse_append, List.takeWhile_append_dropWhile, List.reverse_reverse]
  · intro c hc
    exact List.all_eq_true.mp List.all_takeWhile c (List.mem_reverse.mp hc)

theorem words_of_blank {blanks : List Char} (h : ∀ c ∈ blanks, isBlank c = true) :
    words blanks = [] := by
  induction blanks with
  | nil => rfl
  | cons c blanks ih =>
    rw [words_cons_blank (h c List.mem_cons_self)]
    exact ih fun d hd => h d (List.mem_cons_of_mem c hd)

theorem words_append_blanks {blanks : List Char} (h : ∀ c ∈ blanks, isBlank c = true)
    (cs : List Char) : words (cs ++ blanks) = words cs := by
  cases blanks with
  | nil => rw [List.append_nil]
  | cons c blanks =>
    rw [words_append_blank (h c List.mem_cons_self),
      words_of_blank fun d hd => h d (List.mem_cons_of_mem c hd), List.append_nil]

theorem words_trimEnd (cs : List Char) : words (trimEnd cs) = words cs := by
  obtain ⟨blanks, hcs, hblanks⟩ := trimEnd_append cs
  conv => rhs; rw [hcs]
  exact (words_append_blanks hblanks _).symm

/-- A character that is not white space begins the first word of the text it begins. -/
theorem words_cons {c : Char} (h : isBlank c = false) (cs : List Char) :
    ∃ w ws, words (c :: cs) = (c :: w) :: ws := by
  obtain ⟨piece, pieces, hcs⟩ := List.exists_cons_of_ne_nil (split_ne_nil isBlank cs)
  have hleft : ∀ d ∈ [c], isBlank d = false := by simpa using h
  have hsplit : split isBlank (c :: cs) = (c :: piece) :: pieces := split_append_uncut hleft hcs
  exact ⟨piece, pieces.filter fun w => !w.isEmpty, by simp [words, hsplit]⟩

/-- A text that is a word of any text that it stands in. -/
def IsWord (w : List Char) : Prop := w ≠ [] ∧ ∀ c ∈ w, isBlank c = false

instance (w : List Char) : Decidable (IsWord w) :=
  decidable_of_iff (w ≠ [] ∧ (w.all fun c => !isBlank c) = true) (by simp [IsWord])

theorem IsWord.append {v w : List Char} (hv : IsWord v) (hw : IsWord w) : IsWord (v ++ w) :=
  ⟨by simp [hv.1], List.forall_mem_append.mpr ⟨hv.2, hw.2⟩⟩

theorem words_flatMap_space {w : List Char} {ws : List (List Char)} (hw : IsWord w)
    (hws : ∀ v ∈ ws, IsWord v) : words (w ++ ws.flatMap (' ' :: ·)) = w :: ws := by
  rw [words, split_flatMap_cut (by decide) hw.2 fun v hv => (hws v hv).2]
  apply List.filter_eq_self.mpr
  intro v hv
  rcases List.mem_cons.mp hv with rfl | hv
  · simpa using hw.1
  · simpa using (hws v hv).1

theorem words_intercalate {ws : List (List Char)} (h : ∀ w ∈ ws, IsWord w) :
    words ([' '].intercalate ws) = ws := by
  cases ws with
  | nil => rfl
  | cons w ws =>
    obtain ⟨hw, hws⟩ := List.forall_mem_cons.mp h
    rw [intercalate_cons, words_flatMap_space hw hws]

theorem notMem_intercalate {c : Char} (hc : isBlank c = true) (hspace : c ≠ ' ')
    {ws : List (List Char)} (h : ∀ w ∈ ws, IsWord w) : c ∉ [' '].intercalate ws := by
  have hword : ∀ w, IsWord w → c ∉ w := by
    intro w hw hmem
    rw [hw.2 c hmem] at hc
    cases hc
  cases ws with
  | nil => exact nofun
  | cons w ws =>
    obtain ⟨hw, hws⟩ := List.forall_mem_cons.mp h
    rw [intercalate_cons, List.mem_append, List.mem_flatMap]
    rintro (hmem | ⟨v, hv, hmem⟩)
    · exact hword w hw hmem
    · rcases List.mem_cons.mp hmem with hmem | hmem
      · exact hspace hmem
      · exact hword v (hws v hv) hmem

theorem isWord_of_mem_words {w cs : List Char} (h : w ∈ words cs) : IsWord w := by
  obtain ⟨hw, hne⟩ := List.mem_filter.mp h
  refine ⟨by simpa using hne, ?_⟩
  intro c hc
  exact uncut_of_mem_split hw hc

theorem subset_of_mem_words {w cs : List Char} (h : w ∈ words cs) : w ⊆ cs :=
  subset_of_mem_split (List.mem_filter.mp h).1

end HostLookup.Text
