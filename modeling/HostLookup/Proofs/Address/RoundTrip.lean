import HostLookup.Address.Printer
import HostLookup.Address.Reader
import HostLookup.Proofs.Text.Cutting
import HostLookup.Proofs.Text.Numerals

/-!
Addresses read back as they were written. The written form consists of digits, colons and dots; the
gap in an IPv6 address stands where zeros were, and there is at most one.
-/
set_option autoImplicit false

namespace HostLookup

open Text

section Pieces

variable {α β : Type} {read : β → Option α} {write : α → β}

theorem mapM_map_of_read (h : ∀ a, read (write a) = some a) (as : List α) :
    (as.map write).mapM read = some as := by
  induction as with
  | nil => rfl
  | cons a as ih => simp [h, ih]

theorem mapM_eq_none_of_mem {b : β} {bs : List β} (hb : b ∈ bs) (h : read b = none) :
    bs.mapM read = none := by
  induction bs with
  | nil => cases hb
  | cons d bs ih =>
    rw [List.mapM_cons]
    rcases List.mem_cons.mp hb with rfl | hb
    · rw [h]
      rfl
    · cases read d with
      | none => rfl
      | some a =>
        rw [ih hb]
        rfl

end Pieces

theorem split_colon (left right : List Char) : split (· == ':') (left ++ ':' :: right) =
    split (· == ':') left ++ split (· == ':') right :=
  @split_append_cut Char (· == ':') ':' rfl left right

theorem notMem_toDigits {b : Nat} {d : Char} (hb : 1 < b) (hb' : b ≤ 16)
    (hd : digitValue d = none) (n : Nat) : d ∉ Nat.toDigits b n := by
  intro h
  obtain ⟨v, _, hv⟩ := digitValue_of_mem_toDigits hb hb' h
  rw [hd] at hv
  cases hv

theorem numeral_eq_none {base bound : Nat} {c : Char} {cs : List Char} (hc : c ∈ cs)
    (h : digitValue c = none) : numeral base bound cs = none := by
  obtain ⟨left, right, rfl⟩ := List.append_of_mem hc
  have hnone : ∀ acc, ofDigits base acc (c :: right) = none := by
    intro acc
    rw [ofDigits, h]
  unfold numeral
  split
  · rfl
  · rw [ofDigits_append]
    cases ofDigits base 0 left with
    | none => rfl
    | some n =>
      rw [Option.bind_some, hnone]
      rfl

namespace V4

variable {c : Char} {cs : List Char}

theorem octet?_decimal (o : UInt8) : octet? (decimal o.toNat) = some o := by
  have hall : ∀ n < 256, octet? (decimal n) = some (UInt8.ofNat n) := by decide +kernel
  rw [hall o.toNat o.toNat_lt, UInt8.ofNat_toNat]

theorem octet?_eq_none (hc : c ∈ cs) (h : digitValue c = none) : octet? cs = none := by
  unfold octet?
  split
  · rfl
  · rw [numeral_eq_none hc h]
    rfl

theorem undotted_of_mem {p : List Char} {v : V4}
    (hp : p ∈ v.octets.map fun o => decimal o.toNat) : ∀ c ∈ p, (c == '.') = false := by
  obtain ⟨o, _, rfl⟩ := List.mem_map.mp hp
  exact uncut_of_notMem (notMem_toDigits (by decide) (by decide) (by decide) _)

@[simp] theorem ofChars?_chars (v : V4) : ofChars? v.chars = some v := by
  have hsplit : split (· == '.') v.chars = v.octets.map fun o => decimal o.toNat :=
    split_intercalate (beq_self_eq_true '.') (by simp [octets]) fun p hp => undotted_of_mem hp
  rw [ofChars?, hsplit, mapM_map_of_read octet?_decimal]
  exact ofOctets?_octets v

theorem ofChars?_eq_none (hc : c ∈ cs) (h : digitValue c = none) (hdot : c ≠ '.') :
    ofChars? cs = none := by
  obtain ⟨p, hp, hcp⟩ := exists_mem_split (· == '.') hc (beq_eq_false_iff_ne.mpr hdot)
  rw [ofChars?, mapM_eq_none_of_mem hp (octet?_eq_none hcp h)]

/-- Behind the last dot there has to be an octet. -/
theorem ofChars?_concat_dot (cs : List Char) : ofChars? (cs ++ ['.']) = none := by
  have hsplit : split (· == '.') (cs ++ ['.']) = split (· == '.') cs ++ [[]] :=
    @split_append_cut Char (· == '.') '.' rfl cs []
  have hempty : octet? [] = none := rfl
  rw [ofChars?, hsplit, mapM_eq_none_of_mem (List.mem_append_right _ List.mem_cons_self) hempty]

theorem notMem_chars (hc : digitValue c = none) (hdot : c ≠ '.') (v : V4) : c ∉ v.chars := by
  intro h
  have hread := ofChars?_eq_none h hc hdot
  rw [ofChars?_chars] at hread
  cases hread

end V4

namespace V6

/-- No character of an IPv6 address. -/
def Stray (c : Char) : Prop := digitValue c = none ∧ c ≠ ':' ∧ c ≠ '.'

instance (c : Char) : Decidable (Stray c) :=
  inferInstanceAs (Decidable (digitValue c = none ∧ c ≠ ':' ∧ c ≠ '.'))

variable {c : Char} {cs : List Char} {gs : List UInt16}

theorem group?_hexadecimal (g : UInt16) : group? (hexadecimal g.toNat) = some g := by
  have hlength : (hexadecimal g.toNat).length ≤ 4 :=
    (Nat.length_toDigits_le_iff (by decide) (by decide)).mpr g.toNat_lt
  rw [group?, if_pos hlength, hexadecimal, numeral_toDigits (by decide) (by decide) g.toNat_lt]
  exact congrArg some UInt16.ofNat_toNat

theorem group?_eq_none (hc : c ∈ cs) (h : digitValue c = none) : group? cs = none := by
  unfold group?
  split
  · rw [numeral_eq_none hc h]
    rfl
  · rfl

theorem groupsOfPieces_hexadecimal (gs : List UInt16) :
    groupsOfPieces (gs.map fun g => hexadecimal g.toNat) = some gs := by
  induction gs with
  | nil => rfl
  | cons g gs ih =>
    cases gs with
    | nil =>
      rw [List.map_cons, List.map_nil, groupsOfPieces, group?_hexadecimal]
      rfl
    | cons h gs =>
      rw [List.map_cons] at ih
      rw [List.map_cons, List.map_cons, groupsOfPieces, group?_hexadecimal, ih]
      · rfl
      · exact nofun

theorem uncoloned_of_mem {p : List Char} (hp : p ∈ gs.map fun g => hexadecimal g.toNat) :
    ∀ c ∈ p, (c == ':') = false := by
  obtain ⟨g, _, rfl⟩ := List.mem_map.mp hp
  exact uncut_of_notMem (notMem_toDigits (by decide) (by decide) (by decide) _)

theorem split_groupChars (h : gs ≠ []) :
    split (· == ':') (groupChars gs) = gs.map fun g => hexadecimal g.toNat :=
  split_intercalate (beq_self_eq_true ':') (by simpa using h) fun p hp => uncoloned_of_mem hp

theorem groupChars_isEmpty (h : gs ≠ []) : (groupChars gs).isEmpty = false := by
  obtain ⟨g, gs, rfl⟩ := List.exists_cons_of_ne_nil h
  rw [groupChars, List.map_cons, intercalate_cons]
  simp [hexadecimal]

theorem front?_groupChars (gs : List UInt16) : front? (groupChars gs) = some gs := by
  by_cases h : gs = []
  · subst h
    rfl
  · rw [front?, groupChars_isEmpty h, split_groupChars h]
    exact mapM_map_of_read group?_hexadecimal gs

theorem back?_groupChars (gs : List UInt16) : back? (groupChars gs) = some gs := by
  by_cases h : gs = []
  · subst h
    rfl
  · rw [back?, groupChars_isEmpty h, split_groupChars h]
    exact groupsOfPieces_hexadecimal gs

/-- A gap behind a group is found where it is found without the group. -/
theorem splitGap_append {p : List Char} (h : ∀ c ∈ p, (c == ':') = false) (rest : List Char) :
    splitGap (p ++ rest) = (splitGap rest).map fun parts => (p ++ parts.1, parts.2) := by
  induction p with
  | nil => simp
  | cons c p ih =>
    obtain ⟨hc, hp⟩ := List.forall_mem_cons.mp h
    have hstep : splitGap (c :: (p ++ rest)) =
        (splitGap (p ++ rest)).map fun parts => (c :: parts.1, parts.2) := by
      cases hrest : p ++ rest with
      | nil => rfl
      | cons d tail =>
        rw [splitGap, if_neg]
        exact fun hcolon => absurd hcolon.1 (beq_eq_false_iff_ne.mp hc)
    rw [List.cons_append, hstep, ih hp, Option.map_map]
    rfl

theorem splitGap_flatMap {ps : List (List Char)} (hne : ∀ p ∈ ps, p ≠ [])
    (h : ∀ p ∈ ps, ∀ c ∈ p, (c == ':') = false) (rest : List Char) :
    splitGap (ps.flatMap (':' :: ·) ++ rest) =
      (splitGap rest).map fun parts => (ps.flatMap (':' :: ·) ++ parts.1, parts.2) := by
  induction ps with
  | nil => simp
  | cons p ps ih =>
    obtain ⟨hpne, hpsne⟩ := List.forall_mem_cons.mp hne
    obtain ⟨hp, hps⟩ := List.forall_mem_cons.mp h
    obtain ⟨c, p, rfl⟩ := List.exists_cons_of_ne_nil hpne
    have hc : ¬ (':' = ':' ∧ c = ':') :=
      fun hcolon => absurd hcolon.2 (beq_eq_false_iff_ne.mp (hp c List.mem_cons_self))
    rw [List.flatMap_cons, List.append_assoc, List.cons_append, List.cons_append, splitGap,
      if_neg hc, ← List.cons_append, splitGap_append hp, ih hpsne hps, Option.map_map,
      Option.map_map]
    simp [Function.comp_def]

theorem splitGap_groupChars (gs : List UInt16) (rest : List Char) :
    splitGap (groupChars gs ++ rest) =
      (splitGap rest).map fun parts => (groupChars gs ++ parts.1, parts.2) := by
  cases gs with
  | nil => simp [groupChars]
  | cons g gs =>
    have hpieces : ∀ p ∈ (g :: gs).map fun g => hexadecimal g.toNat, ∀ c ∈ p, (c == ':') = false :=
      fun p hp => uncoloned_of_mem hp
    rw [List.map_cons, List.forall_mem_cons] at hpieces
    rw [groupChars, List.map_cons, intercalate_cons, List.append_assoc, splitGap_append hpieces.1,
      splitGap_flatMap (by simp [hexadecimal]) hpieces.2, Option.map_map]
    simp [Function.comp_def]

theorem splitGap_gap (back : List Char) : splitGap ("::".toList ++ back) = some ([], back) := rfl

/-- What is left out of the text is zeros. -/
theorem append_longestZeros (gs : List UInt16) :
    gs.take (longestZeros gs).1 ++ List.replicate (longestZeros gs).2 0 ++
      gs.drop ((longestZeros gs).1 + (longestZeros gs).2) = gs := by
  induction gs with
  | nil => rfl
  | cons g gs ih =>
    rw [longestZeros]
    split
    · have hzeros : (g :: gs).takeWhile (· == 0) = List.replicate (leadingZeros (g :: gs)) 0 := by
        apply List.eq_replicate_iff.mpr
        refine ⟨rfl, fun z hz => ?_⟩
        exact eq_of_beq (List.all_eq_true.mp List.all_takeWhile z hz)
      rw [List.take_zero, List.nil_append, ← hzeros, Nat.zero_add, leadingZeros]
      exact List.prefix_iff_eq_append.mp (List.takeWhile_prefix _)
    · rw [List.take_succ_cons, Nat.add_right_comm, List.drop_succ_cons, List.cons_append,
        List.cons_append, ih]

theorem fill?_gap {front back : List UInt16} {n : Nat} (hn : 0 < n) {v : V6}
    (h : front ++ List.replicate n 0 ++ back = v.groups) : fill? front back = some v := by
  have hlength : front.length + n + back.length = 8 := by
    rw [← length_groups v, ← h, List.length_append, List.length_append, List.length_replicate]
  have hn : 8 - (front.length + back.length) = n := by omega
  rw [fill?, if_pos (by omega), hn, h]
  exact ofGroups?_groups v

theorem eq_ofV4_of_toV4? {v : V6} {a : V4} (h : v.toV4? = some a) : v = ofV4 a := by
  unfold toV4? at h
  split at h
  · rename_i hv
    cases h
    obtain ⟨h0, h1, h2, h3, h4, h5⟩ := hv
    cases v
    simp only at h0 h1 h2 h3 h4 h5
    simp [ofV4, joinOctets_splitWord, h0, h1, h2, h3, h4, h5]
  · cases h

theorem quad?_chars (a : V4) :
    quad? a.chars = some [joinOctets a.a a.b, joinOctets a.c a.d] := by
  rw [quad?, V4.ofChars?_chars]
  rfl

theorem dot_mem_chars (a : V4) : '.' ∈ a.chars := by
  simp [V4.chars, V4.octets]

theorem back?_quad (a : V4) : back? ("ffff:".toList ++ a.chars) =
    some [0xffff, joinOctets a.a a.b, joinOctets a.c a.d] := by
  have hcolon : ∀ c ∈ a.chars, (c == ':') = false :=
    uncut_of_notMem (V4.notMem_chars (by decide) (by decide) a)
  have htext : "ffff:".toList ++ a.chars = "ffff".toList ++ ':' :: a.chars := rfl
  have hsplit : split (· == ':') ("ffff:".toList ++ a.chars) = ["ffff".toList, a.chars] := by
    rw [htext, split_colon, split_eq_singleton hcolon]
    rfl
  have hfirst : group? "ffff".toList = some 0xffff := by decide
  have hsecond : group? a.chars = none := group?_eq_none (dot_mem_chars a) (by decide)
  rw [back?, hsplit, groupsOfPieces, groupsOfPieces, hfirst, hsecond, quad?_chars]
  · rfl
  · exact nofun

theorem ofChars?_mapped (a : V4) : ofChars? ("::ffff:".toList ++ a.chars) = some (ofV4 a) := by
  have hgap : splitGap ("::ffff:".toList ++ a.chars) = some ([], "ffff:".toList ++ a.chars) := rfl
  rw [ofChars?, hgap]
  dsimp only
  rw [back?_quad]
  rfl

@[simp] theorem ofChars?_chars (v : V6) : ofChars? v.chars = some v := by
  unfold chars
  split
  · rename_i a h
    rw [ofChars?_mapped, eq_ofV4_of_toV4? h]
  · dsimp only
    split
    · have hgap : splitGap (groupChars v.groups) = none := by
        have h := splitGap_groupChars v.groups []
        rwa [List.append_nil] at h
      rw [ofChars?, hgap]
      dsimp only
      rw [back?_groupChars, Option.bind_some, ofGroups?_groups]
    · rename_i hrun
      have hpos : 0 < (longestZeros v.groups).2 := by omega
      rw [ofChars?, List.append_assoc, splitGap_groupChars, splitGap_gap, Option.map_some]
      dsimp only
      rw [List.append_nil, front?_groupChars, back?_groupChars, Option.bind_eq_bind,
        Option.bind_some, Option.bind_some, fill?_gap hpos (append_longestZeros v.groups)]

theorem quad?_eq_none (hc : c ∈ cs) (h : Stray c) : quad? cs = none := by
  rw [quad?, V4.ofChars?_eq_none hc h.1 h.2.2]
  rfl

theorem groupsOfPieces_eq_none {p : List Char} {ps : List (List Char)} (hp : p ∈ ps) (hc : c ∈ p)
    (h : Stray c) : groupsOfPieces ps = none := by
  induction ps with
  | nil => cases hp
  | cons q ps ih =>
    cases ps with
    | nil =>
      cases List.mem_singleton.mp hp
      rw [groupsOfPieces, group?_eq_none hc h.1, quad?_eq_none hc h]
      rfl
    | cons r ps =>
      rw [groupsOfPieces]
      · rcases List.mem_cons.mp hp with rfl | hp
        · rw [group?_eq_none hc h.1]
          rfl
        · rw [ih hp]
          cases group? q with
          | none => rfl
          | some g => rfl
      · exact nofun

theorem front?_eq_none (hc : c ∈ cs) (h : Stray c) : front? cs = none := by
  have hne : ¬ cs.isEmpty = true := fun hnil => List.ne_nil_of_mem hc (List.isEmpty_iff.mp hnil)
  obtain ⟨p, hp, hcp⟩ := exists_mem_split (· == ':') hc (beq_eq_false_iff_ne.mpr h.2.1)
  rw [front?, if_neg hne, mapM_eq_none_of_mem hp (group?_eq_none hcp h.1)]

theorem back?_eq_none (hc : c ∈ cs) (h : Stray c) : back? cs = none := by
  have hne : ¬ cs.isEmpty = true := fun hnil => List.ne_nil_of_mem hc (List.isEmpty_iff.mp hnil)
  obtain ⟨p, hp, hcp⟩ := exists_mem_split (· == ':') hc (beq_eq_false_iff_ne.mpr h.2.1)
  rw [back?, if_neg hne, groupsOfPieces_eq_none hp hcp h]

theorem eq_append_of_splitGap {parts : List Char × List Char} (h : splitGap cs = some parts) :
    cs = parts.1 ++ "::".toList ++ parts.2 := by
  induction cs generalizing parts with
  | nil => cases h
  | cons c cs ih =>
    cases cs with
    | nil => cases h
    | cons d cs =>
      rw [splitGap] at h
      split at h
      · rename_i hcolon
        cases h
        rw [hcolon.1, hcolon.2]
        rfl
      · obtain ⟨rest, hrest, rfl⟩ := Option.map_eq_some_iff.mp h
        rw [ih hrest]
        rfl

theorem ofChars?_eq_none (hc : c ∈ cs) (h : Stray c) : ofChars? cs = none := by
  unfold ofChars?
  split
  · rw [back?_eq_none hc h]
    rfl
  · rename_i front back hgap
    rw [eq_append_of_splitGap hgap, List.mem_append, List.mem_append] at hc
    rcases hc with (hc | hc) | hc
    · rw [front?_eq_none hc h]
      rfl
    · have hcolon : c = ':' := by simpa using hc
      exact absurd hcolon h.2.1
    · rw [back?_eq_none hc h]
      cases front? front with
      | none => rfl
      | some gs => rfl

theorem groupsOfPieces_concat_dot (ps : List (List Char)) (p : List Char) :
    groupsOfPieces (ps ++ [p ++ ['.']]) = none := by
  induction ps with
  | nil =>
    have hgroup : group? (p ++ ['.']) = none :=
      group?_eq_none (List.mem_append_right p List.mem_cons_self) rfl
    rw [List.nil_append, groupsOfPieces, hgroup, quad?, V4.ofChars?_concat_dot]
    rfl
  | cons q ps ih =>
    rw [List.cons_append, groupsOfPieces, ih]
    · cases group? q <;> rfl
    · simp

theorem split_colon_concat_dot (cs : List Char) :
    ∃ ps p, split (· == ':') (cs ++ ['.']) = ps ++ [p ++ ['.']] := by
  induction cs with
  | nil => exact ⟨[], [], rfl⟩
  | cons c cs ih =>
    obtain ⟨ps, p, h⟩ := ih
    rw [List.cons_append, split, h]
    split
    · exact ⟨[] :: ps, p, rfl⟩
    · cases ps with
      | nil => exact ⟨[], c :: p, rfl⟩
      | cons q ps => exact ⟨(c :: q) :: ps, p, rfl⟩

theorem back?_concat_dot (cs : List Char) : back? (cs ++ ['.']) = none := by
  obtain ⟨ps, p, hsplit⟩ := split_colon_concat_dot cs
  rw [back?, if_neg (by simp), hsplit, groupsOfPieces_concat_dot]

theorem ofChars?_concat_dot (cs : List Char) : ofChars? (cs ++ ['.']) = none := by
  unfold ofChars?
  split
  · rw [back?_concat_dot]
    rfl
  · rename_i front back hgap
    have hlast := congrArg List.getLast? (eq_append_of_splitGap hgap)
    rw [List.getLast?_concat] at hlast
    rcases List.eq_nil_or_concat back with rfl | ⟨rest, c, rfl⟩
    · simp at hlast
    · rw [List.concat_eq_append, ← List.append_assoc, List.getLast?_concat] at hlast
      cases hlast
      rw [List.concat_eq_append, back?_concat_dot]
      cases front? front <;> rfl

theorem colon_mem_chars (v : V6) : ':' ∈ v.chars := by
  unfold chars
  split
  · simp
  · dsimp only
    split
    · simp [groupChars, groups]
    · simp

end V6

namespace Address

variable {c : Char}

@[simp] theorem ofChars?_chars (a : Address) : ofChars? a.chars = some a := by
  cases a with
  | v4 a => simp [chars, ofChars?]
  | v6 a =>
    have hv4 : V4.ofChars? a.chars = none :=
      V4.ofChars?_eq_none a.colon_mem_chars (by decide) (by decide)
    simp [chars, ofChars?, hv4]

theorem ofChars?_eq_none {cs : List Char} (hc : c ∈ cs) (h : V6.Stray c) :
    ofChars? cs = none := by
  rw [ofChars?, V4.ofChars?_eq_none hc h.1 h.2.2, V6.ofChars?_eq_none hc h]
  rfl

/-- The written form of an address has none of other characters. -/
theorem notMem_chars (hc : V6.Stray c) (a : Address) : c ∉ a.chars := by
  intro h
  have hread := ofChars?_eq_none h hc
  rw [ofChars?_chars] at hread
  cases hread

/-- No literal address ends in a dot. -/
theorem ofString?_push_dot (text : String) : ofString? (text.push '.') = none := by
  rw [ofString?, String.toList_push, ofChars?, V4.ofChars?_concat_dot, V6.ofChars?_concat_dot]
  rfl

end Address

end HostLookup
