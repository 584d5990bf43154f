import HostLookup.Name.Reader
import Mathlib.Data.List.Forall2

/-!
The labels that symbols make. What is said of the reader's state, i.e., the octets that are taken
and the label that is begun, is said of a relation with a case for each step of the reader.
Symbols behind a separator make labels of their own, as long as there is room for all of them.
-/
set_option autoImplicit false

namespace HostLookup.DomainName

/-- A symbol adds an octet to a label. -/
inductive Symbol.Adds (l : Label) : Symbol → UInt8 → Prop where
  | octet (o : UInt8) : Adds l (.octet o) o
  | bracket : l ≠ [] → Adds l .bracket 91

/-- The label that is begun, if it has an octet. -/
def begun (l : Label) : List Label := if l.isEmpty then [] else [l]

/-- Symbols make labels, behind a label begun and a wire form of which `used` octets are taken. -/
inductive Makes : Nat → Label → List Symbol → List Label → Prop where
  | done (used : Nat) (l : Label) : Makes used l [] (begun l)
  | separator {used : Nat} {l : Label} {ss : List Symbol} {ls : List Label} :
      l ≠ [] → Makes used [] ss ls → Makes used l (.separator :: ss) (l :: ls)
  | added {used : Nat} {l : Label} {s : Symbol} {o : UInt8} {ss : List Symbol} {ls : List Label} :
      s.Adds l o → fits used l = true → Makes (usedWith used l) (l ++ [o]) ss ls →
      Makes used l (s :: ss) ls

variable {used base : Nat} {l : Label} {s : Symbol} {ss ts : List Symbol} {ls ms : List Label}

theorem makes_of_assemble (h : assemble used l ss = some ls) : Makes used l ss ls := by
  fun_induction assemble used l ss generalizing ls with
  | case1 used l =>
    cases h
    exact .done used l
  | case3 used l ss hl ih =>
    obtain ⟨ms, hms, rfl⟩ := Option.map_eq_some_iff.mp h
    exact .separator (fun hnil => hl (List.isEmpty_iff.mpr hnil)) (ih hms)
  | case4 used l o ss hfits ih => exact .added (.octet o) hfits (ih h)
  | case6 used l ss hfits ih =>
    obtain ⟨hl, hfits⟩ := Bool.and_eq_true_iff.mp hfits
    exact .added (.bracket (by simpa using hl)) hfits (ih h)
  | case2 | case5 | case7 => cases h

theorem Makes.assemble (h : Makes used l ss ls) : assemble used l ss = some ls := by
  induction h with
  | done => rfl
  | separator hl _ ih =>
    rw [DomainName.assemble, if_neg (by simpa using hl), ih]
    rfl
  | @added _ _ _ _ _ _ hadds hfits _ ih =>
    cases hadds with
    | octet => rw [DomainName.assemble, if_pos hfits, ih]
    | bracket hl => rw [DomainName.assemble, if_pos (by simp [hl, hfits]), ih]

theorem assemble_eq_some_iff : assemble used l ss = some ls ↔ Makes used l ss ls :=
  ⟨makes_of_assemble, Makes.assemble⟩

theorem begun_of_ne_nil (h : l ≠ []) : begun l = [l] := if_neg (by simpa using h)

/-- The octets that labels take in a wire form. -/
def size (ls : List Label) : Nat := (ls.flatMap Label.wire).length

theorem size_cons (l : Label) (ls : List Label) : size (l :: ls) = size [l] + size ls := by
  rw [size, List.flatMap_cons, List.length_append, size, List.flatMap_singleton]
  rfl

theorem size_append (ls ms : List Label) : size (ls ++ ms) = size ls + size ms := by
  rw [size, List.flatMap_append, List.length_append]
  rfl

theorem wire_append (ls ms : List Label) :
    wire ⟨ls ++ ms⟩ = ls.flatMap Label.wire ++ wire ⟨ms⟩ := by
  rw [wire, List.flatMap_append, List.append_assoc]
  rfl

theorem length_wire (ls : List Label) : (wire ⟨ls⟩).length = size ls + 1 := List.length_append

theorem size_begun_concat (l : Label) (o : UInt8) :
    size (begun (l ++ [o])) = if l.isEmpty then 2 else size (begun l) + 1 := by
  rw [begun_of_ne_nil (by simp)]
  cases l with
  | nil => rfl
  | cons p l => simp [size, Label.wire, begun]

/-- With a further octet, what is taken grows by as much as the label that is begun. -/
theorem usedWith_eq (h : used = base + size (begun l)) (o : UInt8) :
    usedWith used l = base + size (begun (l ++ [o])) := by
  rw [usedWith, size_begun_concat, h]
  cases l with
  | nil => rfl
  | cons p l => rfl

theorem Makes.size_begun_le (h : Makes used l ss ls) : size (begun l) ≤ size ls := by
  induction h with
  | done => exact Nat.le_refl _
  | @separator _ l _ ls hl _ _ =>
    rw [begun_of_ne_nil hl, size_cons l ls]
    exact Nat.le_add_right _ _
  | @added _ l _ o _ _ _ _ _ ih =>
    refine Nat.le_trans ?_ ih
    rw [size_begun_concat]
    cases l with
    | nil => exact Nat.zero_le _
    | cons p l => exact Nat.le_succ _

/-- Symbols make the same labels wherever there is room for them. -/
theorem Makes.elsewhere (h : Makes used l ss ls) {used' : Nat}
    (hu : used' = base + size (begun l)) (hroom : base + size ls ≤ 254) : Makes used' l ss ls := by
  induction h generalizing used' base with
  | done => exact .done _ _
  | separator hl _ ih =>
    rw [size_cons, ← Nat.add_assoc] at hroom
    rw [begun_of_ne_nil hl] at hu
    exact .separator hl (ih hu hroom)
  | @added _ l _ o _ ls hadds hfits hmakes ih =>
    refine .added hadds ?_ (ih (usedWith_eq hu o) hroom)
    -- The octet is part of what is made, so there is room for it.
    have hgrows : size (begun l) < size (begun (l ++ [o])) := by
      rw [size_begun_concat]
      cases l with
      | nil => exact Nat.zero_lt_two
      | cons p l => exact Nat.lt_succ_self _
    have hle := hmakes.size_begun_le
    unfold fits at hfits ⊢
    rw [Bool.and_eq_true] at hfits ⊢
    exact ⟨decide_eq_true (by omega), hfits.2⟩

/-- No octet is taken beyond the 255th. -/
theorem Makes.size_le (h : Makes used l ss ls) (hu : used = base + size (begun l))
    (hroom : used ≤ 255) : base + size ls ≤ 255 := by
  induction h generalizing base with
  | done => exact hu ▸ hroom
  | separator hl _ ih =>
    rw [begun_of_ne_nil hl] at hu
    rw [size_cons, ← Nat.add_assoc]
    exact ih hu hroom
  | @added used l _ o _ _ _ hfits _ ih =>
    refine ih (usedWith_eq hu o) ?_
    unfold fits at hfits
    rw [Bool.and_eq_true] at hfits
    have hlt := of_decide_eq_true hfits.1
    unfold usedWith
    split <;> omega

/-- Symbols behind a separator make labels of their own. -/
theorem Makes.append (h : Makes used l (ss ++ [.separator]) ls) (hu : used = base + size (begun l))
    (h' : Makes (base + size ls) [] ts ms) : Makes used l (ss ++ .separator :: ts) (ls ++ ms) := by
  induction ss generalizing used base l ls with
  | nil =>
    cases h with
    | separator hl hnil =>
      cases hnil
      rw [begun_of_ne_nil hl] at hu
      exact .separator hl (hu ▸ h')
    | added hadds => cases hadds
  | cons s ss ih =>
    cases h with
    | separator hl hrest =>
      rw [size_cons, ← Nat.add_assoc] at h'
      rw [begun_of_ne_nil hl] at hu
      exact .separator hl (ih hrest hu h')
    | @added _ _ _ o _ _ hadds hfits hrest =>
      exact .added hadds hfits (ih hrest (usedWith_eq hu o) h')

/-- A separator at the end has a label before it, and makes none. -/
theorem Makes.of_concat (h : Makes used l (ss ++ [.separator]) ls) :
    Makes used l ss ls ∧ ss.getLast? ≠ some .separator := by
  induction ss generalizing used l ls with
  | nil =>
    cases h with
    | separator hl hnil =>
      cases hnil
      exact ⟨begun_of_ne_nil hl ▸ .done used l, nofun⟩
    | added hadds => cases hadds
  | cons s ss ih =>
    cases h with
    | separator hl hrest =>
      obtain ⟨hmakes, hlast⟩ := ih hrest
      refine ⟨.separator hl hmakes, ?_⟩
      cases ss with
      | nil =>
        cases hrest with
        | separator hnil => exact absurd rfl hnil
        | added hadds => cases hadds
      | cons t ss => rwa [List.getLast?_cons_cons]
    | added hadds hfits hrest =>
      obtain ⟨hmakes, hlast⟩ := ih hrest
      refine ⟨.added hadds hfits hmakes, ?_⟩
      cases ss with
      | nil => cases hadds <;> nofun
      | cons t ss => rwa [List.getLast?_cons_cons]

theorem getLast?_ne_of_cons {α : Type} {a b : α} {as : List α} (h : (a :: as).getLast? ≠ some b) :
    as.getLast? ≠ some b := by
  cases as with
  | nil => exact nofun
  | cons c as => rwa [List.getLast?_cons_cons] at h

/-- Behind a label, a separator may be put at the end. -/
theorem Makes.concat (h : Makes used l ss ls) (hlast : ss.getLast? ≠ some .separator)
    (hne : ss ≠ [] ∨ l ≠ []) : Makes used l (ss ++ [.separator]) ls := by
  induction h with
  | done used l =>
    have hl : l ≠ [] := hne.resolve_left fun hnil => hnil rfl
    rw [begun_of_ne_nil hl]
    exact .separator hl (.done used [])
  | @separator _ _ ss _ hl _ ih =>
    have hss : ss ≠ [] := fun hnil => hlast (hnil ▸ rfl)
    exact .separator hl (ih (getLast?_ne_of_cons hlast) (.inl hss))
  | @added _ l _ o _ _ hadds hfits _ ih =>
    exact .added hadds hfits (ih (getLast?_ne_of_cons hlast) (.inr (by simp)))

/-- There is one label for each separator, counting one at the end. -/
theorem Makes.length_eq (h : Makes used l (ss ++ [.separator]) ls) :
    ls.length = ss.count .separator + 1 := by
  induction ss generalizing used l ls with
  | nil =>
    cases h with
    | separator hl hnil =>
      cases hnil
      rfl
    | added hadds => cases hadds
  | cons s ss ih =>
    cases h with
    | separator hl hrest => rw [List.length_cons, ih hrest, List.count_cons_self]
    | added hadds hfits hrest =>
      rw [ih hrest]
      cases hadds <;> rfl

/-- Symbols that differ in the octets of labels only. -/
inductive Symbol.Like : Symbol → Symbol → Prop where
  | separator : Like .separator .separator
  | octet (o p : UInt8) : Like (.octet o) (.octet p)
  | bracket : Like .bracket .bracket

theorem isEmpty_congr {m : Label} (h : l.length = m.length) : l.isEmpty = m.isEmpty := by
  cases l <;> cases m <;> simp_all

theorem Symbol.Adds.like {t : Symbol} {o : UInt8} (h : s.Adds l o) (hlike : s.Like t) {m : Label}
    (hlength : l.length = m.length) : ∃ p, t.Adds m p := by
  cases h with
  | octet =>
    cases hlike with
    | octet _ p => exact ⟨p, .octet p⟩
  | bracket hl =>
    cases hlike
    refine ⟨91, .bracket ?_⟩
    rw [← List.length_pos_iff] at hl ⊢
    rwa [← hlength]

/-- Whether there are labels does not depend on their octets. -/
theorem Makes.like (h : Makes used l ss ls) (hlike : List.Forall₂ Symbol.Like ss ts) {m : Label}
    (hlength : l.length = m.length) : ∃ ms, Makes used m ts ms := by
  induction h generalizing ts m with
  | done used l =>
    cases hlike
    exact ⟨_, .done used m⟩
  | @separator _ l _ _ hl _ ih =>
    cases hlike with
    | cons hs hrest =>
      cases hs
      obtain ⟨ms, hms⟩ := ih hrest rfl
      rw [← List.length_pos_iff, hlength, List.length_pos_iff] at hl
      exact ⟨m :: ms, .separator hl hms⟩
  | @added used l _ o _ _ hadds hfits _ ih =>
    cases hlike with
    | cons hs hrest =>
      obtain ⟨p, hp⟩ := hadds.like hs hlength
      have hgrown : (l ++ [o]).length = (m ++ [p]).length := by
        rw [List.length_append, List.length_append, hlength]
        rfl
      obtain ⟨ms, hms⟩ := ih hrest hgrown
      have hused : usedWith used l = usedWith used m := by
        rw [usedWith, usedWith, isEmpty_congr hlength]
      rw [hused] at hms
      rw [fits, hlength] at hfits
      exact ⟨ms, .added hp hfits hms⟩

theorem length_concat_le (h : fits used l = true) (o : UInt8) :
    (l ++ [o]).length ≤ Label.limit := by
  unfold fits at h
  rw [Bool.and_eq_true] at h
  have hlt := of_decide_eq_true h.2
  rw [List.length_append, List.length_singleton]
  omega

/-- Every label has an octet and no more than it may have, if the one begun has not. -/
theorem Makes.valid (h : Makes used l ss ls) (hl : l.length ≤ Label.limit) : Valid ⟨ls⟩ := by
  induction h with
  | done used l =>
    unfold begun
    split
    · exact List.forall_mem_nil _
    · rename_i hne
      exact List.forall_mem_singleton.mpr ⟨fun hnil => hne (List.isEmpty_iff.mpr hnil), hl⟩
  | separator hne _ ih => exact List.forall_mem_cons.mpr ⟨⟨hne, hl⟩, ih (Nat.zero_le _)⟩
  | @added _ _ _ o _ _ _ hfits _ ih => exact ih (length_concat_le hfits o)

end HostLookup.DomainName
