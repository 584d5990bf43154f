import HostLookup.Message.Cursor
import Mathlib.Data.List.Infix

/-!
Names in messages. What it is for a name to stand at a position is said without a reader: label by
label up to the root, or to a pointer to an earlier position, from which the name goes on. The reader
finds exactly the names of at most 255 octets.
-/
set_option autoImplicit false

namespace HostLookup

theorem DomainName.length_wire_pos (ls : List Label) : 0 < (DomainName.wire ⟨ls⟩).length := by
  unfold DomainName.wire
  rw [List.length_append, List.length_singleton]
  omega

namespace Message

/-- The octets stand at a position of a message. -/
def At (message : Octets) (position : Nat) (os : Octets) : Prop := os <+: message.drop position

theorem at_iff {message os : Octets} {p : Nat} :
    At message p os ↔ ∃ rest, message.drop p = os ++ rest := by
  constructor
  · rintro ⟨rest, h⟩
    exact ⟨rest, h.symm⟩
  · rintro ⟨rest, h⟩
    exact ⟨rest, h.symm⟩

theorem drop_behind {message os rest : Octets} {p : Nat} (h : message.drop p = os ++ rest) :
    message.drop (p + os.length) = rest := by
  rw [← List.drop_drop, h, List.drop_left]

/-- Whether octets stand at a position depends on those up to their end only. -/
theorem at_take_iff {message os : Octets} {p n : Nat} (h : p + os.length ≤ n) :
    At (message.take n) p os ↔ At message p os := by
  unfold At
  rw [List.drop_take, List.prefix_take_iff]
  constructor
  · exact And.left
  · intro hp
    exact ⟨hp, by omega⟩

/-- Labels stand at a position of a message, and end behind it at another one. -/
inductive Spells (message : Octets) : Nat → List Label → Nat → Prop where
  | root {p : Nat} : At message p [0] → Spells message p [] (p + 1)
  | label {p behind : Nat} {l : Label} {ls : List Label} : l ≠ [] → l.length ≤ Label.limit →
      At message p l.wire → Spells message (p + l.wire.length) ls behind →
      Spells message p (l :: ls) behind
  | pointer {p behind : Nat} {high low : UInt8} {ls : List Label} : At message p [high, low] →
      192 ≤ high.toNat → (high.toNat - 192) * 256 + low.toNat < p →
      Spells message ((high.toNat - 192) * 256 + low.toNat) ls behind → Spells message p ls (p + 2)

namespace Spells

variable {message : Octets} {p behind n : Nat} {ls : List Label}

/-- Labels end no later than they would without pointers, but for a pointer's second octet. -/
theorem behind_le (h : Spells message p ls behind) :
    behind ≤ p + (DomainName.wire ⟨ls⟩).length + 1 := by
  induction h with
  | root => simp
  | label _ _ _ _ ih =>
    rw [DomainName.wire_cons, List.length_append]
    omega
  | @pointer _ _ _ _ ls _ _ _ _ _ =>
    have hpos := DomainName.length_wire_pos ls
    omega

/-- Labels stand wherever a message has the same octets up to their end. -/
theorem transfer {other : Octets}
    (hat : ∀ p os, p + os.length ≤ n → At message p os → At other p os)
    (h : Spells message p ls behind) (hn : p + (DomainName.wire ⟨ls⟩).length + 1 ≤ n) :
    Spells other p ls behind := by
  induction h with
  | root hroot =>
    apply Spells.root
    apply hat _ _ _ hroot
    rw [List.length_singleton]
    omega
  | label hne hle hlabel _ ih =>
    rw [DomainName.wire_cons, List.length_append] at hn
    exact .label hne hle (hat _ _ (by omega) hlabel) (ih (by omega))
  | @pointer _ _ _ _ ls hpointer hhigh hlt _ ih =>
    have hpos := DomainName.length_wire_pos ls
    refine .pointer (hat _ _ ?_ hpointer) hhigh hlt (ih (by omega))
    simp only [List.length_cons, List.length_nil]
    omega

/-- A name's own octets spell it. -/
theorem wire (hvalid : (DomainName.mk ls).Valid) (h : At message p (DomainName.wire ⟨ls⟩)) :
    Spells message p ls (p + (DomainName.wire ⟨ls⟩).length) := by
  induction ls generalizing p with
  | nil => exact .root h
  | cons l ls ih =>
    obtain ⟨hne, hle⟩ := hvalid l List.mem_cons_self
    obtain ⟨rest, hrest⟩ := at_iff.mp h
    rw [DomainName.wire_cons, List.append_assoc] at hrest
    have hls : At message (p + l.wire.length) (DomainName.wire ⟨ls⟩) :=
      at_iff.mpr ⟨rest, drop_behind hrest⟩
    have hspells := ih (fun m hm => hvalid m (List.mem_cons_of_mem l hm)) hls
    rw [DomainName.wire_cons, List.length_append, ← Nat.add_assoc]
    exact .label hne hle (at_iff.mpr ⟨_, hrest⟩) hspells

end Spells

end Message

namespace Cursor

open Message

theorem labelStart_root_iff {o : UInt8} : labelStart o = .root ↔ o = 0 := by
  unfold labelStart
  dsimp only
  rw [← UInt8.toNat_inj]
  split
  · simpa
  · split
    · simpa
    · split <;> simpa

theorem labelStart_label_iff {o : UInt8} {n : Nat} :
    labelStart o = .label n ↔ o.toNat = n ∧ 0 < n ∧ n < 64 := by
  unfold labelStart
  dsimp only
  split
  · simp; omega
  · split
    · simp; omega
    · split <;> simp <;> omega

theorem labelStart_pointer_iff {o : UInt8} {n : Nat} :
    labelStart o = .pointer n ↔ 192 ≤ o.toNat ∧ n = o.toNat - 192 := by
  unfold labelStart
  dsimp only
  split
  · simp; omega
  · split
    · simp; omega
    · split <;> simp <;> omega

theorem take?_eq_some_iff {c next : Cursor} {n : Nat} {os : Octets} :
    take? c n = some (os, next) ↔
      os.length = n ∧ c.rest = os ++ next.rest ∧ next.position = c.position + n := by
  unfold take?
  dsimp only
  constructor
  · intro h
    split at h
    · cases h
      exact ⟨by assumption, (List.take_append_drop n c.rest).symm, rfl⟩
    · cases h
  · rintro ⟨rfl, hrest, hposition⟩
    cases next
    simp_all

variable {message : Octets} {room p : Nat} {ls : List Label}

/-- A cursor that stands in the message at its position. -/
def In (message : Octets) (c : Cursor) : Prop := c.rest = message.drop c.position

theorem In.step {c : Cursor} {os rest : Octets} (hc : In message c) (h : c.rest = os ++ rest) :
    In message ⟨c.position + os.length, rest⟩ := by
  rw [hc] at h
  exact (drop_behind h).symm

/-- Names that are read stand in the message and fit. -/
theorem labels?_sound {c b : Cursor} (h : labels? message room c = some (ls, b))
    (hc : In message c) (hroom : 0 < room) :
    Spells message c.position ls b.position ∧ In message b ∧
      (DomainName.wire ⟨ls⟩).length ≤ room := by
  -- Names go on behind a label and at a pointer's target; in the cases left nothing is read.
  fun_induction labels? message room c generalizing ls b with
  | case2 room c o rest hrest hroot =>
    cases h
    rw [labelStart_root_iff.mp hroot] at hrest
    have hin : In message ⟨c.position + [(0 : UInt8)].length, rest⟩ := hc.step hrest
    exact ⟨.root (at_iff.mpr ⟨rest, hc ▸ hrest⟩), hin, hroom⟩
  | case3 room c o rest hrest n hlabel hlt l next htake labels behind hlabels ih =>
    cases h
    obtain ⟨hn, hpos, hlimit⟩ := labelStart_label_iff.mp hlabel
    obtain ⟨rfl, hnext, hposition⟩ := take?_eq_some_iff.mp htake
    have ho : UInt8.ofNat l.length = o := by rw [← hn, UInt8.ofNat_toNat]
    have hwire : c.rest = Label.wire l ++ next.rest := by
      rw [hrest, Label.wire, ho, List.cons_append, ← hnext]
    have hbehind : next.position = c.position + (Label.wire l).length := by
      rw [hposition, Label.wire, List.length_cons]
      dsimp only
      omega
    have hin : In message next := by
      have hstep := hc.step hwire
      rw [← hbehind] at hstep
      exact hstep
    obtain ⟨hspells, hb, hle⟩ := ih hlabels hin (by omega)
    rw [hbehind] at hspells
    refine ⟨.label ?_ ?_ (at_iff.mpr ⟨_, hc ▸ hwire⟩) hspells, hb, ?_⟩
    · exact List.ne_nil_of_length_pos hpos
    · unfold Label.limit
      omega
    · rw [DomainName.length_wire_cons]
      omega
  | case8 room c o high hpointer low rest =>
    rename_i target hlt labels behind hlabels hrest ih
    cases h
    obtain ⟨hhigh, hvalue⟩ := labelStart_pointer_iff.mp hpointer
    obtain ⟨hspells, _, hle⟩ := ih hlabels rfl hroom
    have hat : At message c.position [o, low] := at_iff.mpr ⟨rest, hc ▸ hrest⟩
    have htarget : target = (o.toNat - 192) * 256 + low.toNat := by rw [← hvalue]
    clear_value target
    subst htarget
    have hin : In message ⟨c.position + [o, low].length, rest⟩ := hc.step hrest
    exact ⟨.pointer hat hhigh hlt hspells, hin, hle⟩
  | case1 | case4 | case5 | case6 | case7 | case9 | case10 | case11 => cases h

theorem labels?_of_root {c : Cursor} {rest : Octets} (h : c.rest = 0 :: rest) :
    labels? message room c = some ([], ⟨c.position + 1, rest⟩) := by
  have hroot : labelStart 0 = .root := rfl
  -- The match on the label's start keeps an equation, under which `rw` does not rewrite.
  grind [labels?]

theorem labels?_of_label {c : Cursor} {l : Label} {rest : Octets} (hne : l ≠ [])
    (hle : l.length ≤ Label.limit) (hroom : l.length + 1 < room) (h : c.rest = l.wire ++ rest) :
    labels? message room c =
      (labels? message (room - (l.length + 1)) ⟨c.position + l.wire.length, rest⟩).map
        fun (ls, behind) => (l :: ls, behind) := by
  have hpos := List.length_pos_of_ne_nil hne
  have hlength : (UInt8.ofNat l.length).toNat = l.length := by
    unfold Label.limit at hle
    rw [UInt8.toNat_ofNat']
    omega
  have hlabel : labelStart (UInt8.ofNat l.length) = .label l.length := by
    unfold Label.limit at hle
    apply labelStart_label_iff.mpr
    omega
  have htake : take? ⟨c.position + 1, l ++ rest⟩ l.length =
      some (l, ⟨c.position + l.wire.length, rest⟩) := by
    refine take?_eq_some_iff.mpr ⟨rfl, rfl, ?_⟩
    rw [Label.wire, List.length_cons]
    dsimp only
    omega
  rw [Label.wire, List.cons_append] at h
  rw [labels?]
  grind

theorem labels?_of_pointer {c : Cursor} {high low : UInt8} {rest : Octets}
    (hhigh : 192 ≤ high.toNat) (h : c.rest = high :: low :: rest)
    (hlt : (high.toNat - 192) * 256 + low.toNat < c.position) :
    labels? message room c =
      (labels? message room (seek message ((high.toNat - 192) * 256 + low.toNat))).map
        fun (ls, _) => (ls, ⟨c.position + 2, rest⟩) := by
  have hpointer : labelStart high = .pointer (high.toNat - 192) :=
    labelStart_pointer_iff.mpr ⟨hhigh, rfl⟩
  rw [labels?]
  grind

theorem seek_behind {os rest : Octets} (h : message.drop p = os ++ rest) :
    seek message (p + os.length) = ⟨p + os.length, rest⟩ := by
  rw [seek, drop_behind h]

/-- Names that stand in the message and fit are read. -/
theorem labels?_complete {behind : Nat} (h : Spells message p ls behind)
    (hfits : (DomainName.wire ⟨ls⟩).length ≤ room) :
    labels? message room (seek message p) = some (ls, seek message behind) := by
  induction h generalizing room with
  | @root p hat =>
    obtain ⟨rest, hrest⟩ := at_iff.mp hat
    have hbehind := seek_behind hrest
    rw [List.length_singleton] at hbehind
    rw [labels?_of_root hrest, hbehind]
    rfl
  | @label p _ l ls hne hle hat _ ih =>
    obtain ⟨rest, hrest⟩ := at_iff.mp hat
    have hpos := DomainName.length_wire_pos ls
    rw [DomainName.length_wire_cons] at hfits
    have htail : labels? message (room - (l.length + 1)) ⟨p + l.wire.length, rest⟩ = _ :=
      seek_behind hrest ▸ ih (by omega)
    rw [labels?_of_label hne hle (by omega) hrest]
    exact congrArg (Option.map _) htail
  | @pointer p _ high low _ hat hhigh hlt _ ih =>
    obtain ⟨rest, hrest⟩ := at_iff.mp hat
    have hbehind : seek message (p + 2) = ⟨p + 2, rest⟩ := seek_behind hrest
    rw [labels?_of_pointer hhigh hrest hlt, ih hfits, hbehind]
    rfl

/-- At most one name stands at a position, and it ends at one place. -/
theorem spells_unique {ms : List Label} {q q' : Nat} (h : Spells message p ls q)
    (h' : Spells message p ms q') : ls = ms ∧ q = q' := by
  have hls := labels?_complete h (Nat.le_add_right _ (DomainName.wire ⟨ms⟩).length)
  have hms := labels?_complete h' (Nat.le_add_left _ (DomainName.wire ⟨ls⟩).length)
  rw [hls, Option.some_inj, Prod.mk.injEq] at hms
  exact ⟨hms.1, congrArg position hms.2⟩

theorem name?_eq_some_iff {name : DomainName} {behind : Cursor} :
    name? message (seek message p) = some (name, behind) ↔
      ∃ q, Spells message p name.labels q ∧ name.wire.length ≤ nameLimit ∧
        behind = seek message q := by
  unfold name?
  constructor
  · intro h
    obtain ⟨⟨ls, b⟩, hls, hname⟩ := Option.map_eq_some_iff.mp h
    cases hname
    obtain ⟨hspells, hin, hle⟩ := labels?_sound hls rfl (by decide)
    refine ⟨behind.position, hspells, hle, ?_⟩
    rw [seek, ← hin]
  · rintro ⟨q, hspells, hle, rfl⟩
    rw [labels?_complete hspells hle]
    rfl

end Cursor

end HostLookup
