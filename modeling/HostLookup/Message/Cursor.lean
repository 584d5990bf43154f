import HostLookup.Name.Basic

/-!
Reading inside a message. A cursor is a position and the octets from there on. Names may end with a
pointer to an earlier part of the message, where they go on; each pointer points before itself, and
no name is longer than 255 octets.
-/
set_option autoImplicit false

namespace HostLookup

/-- A place in a message. -/
structure Cursor where
  position : Nat
  rest : Octets
  deriving DecidableEq, Repr

namespace Cursor

/-- The place at an offset. -/
def seek (message : Octets) (position : Nat) : Cursor := ⟨position, message.drop position⟩

/-- Reads `n` octets. -/
def take? (c : Cursor) (n : Nat) : Option (Octets × Cursor) :=
  let taken := c.rest.take n
  if taken.length = n then some (taken, ⟨c.position + n, c.rest.drop n⟩) else none

def word? (c : Cursor) : Option (UInt16 × Cursor) :=
  (takeWord c.rest).map fun (w, rest) => (w, ⟨c.position + 2, rest⟩)

/-- The most octets a name can have, the root included. -/
def nameLimit : Nat := 255

/-- What is found where a label may start. -/
inductive LabelStart where
  | root
  | label (length : Nat)
  | pointer (high : Nat)
  | invalid
  deriving DecidableEq, Repr

/-- The meaning of the first octet of a label. -/
def labelStart (o : UInt8) : LabelStart :=
  let n := o.toNat
  if n = 0 then .root
  else if n < 64 then .label n
  else if 192 ≤ n then .pointer (n - 192)
  else .invalid

theorem labelStart_pos {o : UInt8} {n : Nat} (h : labelStart o = .label n) : 0 < n := by
  unfold labelStart at h
  dsimp only at h
  split at h
  · cases h
  · split at h
    · cases h; omega
    · split at h <;> cases h

/-- Reads the labels of a name for which `room` octets are left, and the place behind it. -/
def labels? (message : Octets) (room : Nat) (c : Cursor) : Option (List Label × Cursor) :=
  match c.rest with
  | [] => none
  | o :: rest =>
    match h : labelStart o with
    | .root => some ([], ⟨c.position + 1, rest⟩)
    | .label n =>
      if _room : n + 1 < room then
        match take? ⟨c.position + 1, rest⟩ n with
        | some (label, next) =>
          match labels? message (room - (n + 1)) next with
          | some (labels, behind) => some (label :: labels, behind)
          | none => none
        | none => none
      else none
    | .pointer high =>
      match rest with
      | [] => none
      | low :: rest =>
        let target := high * 256 + low.toNat
        if target < c.position then
          match labels? message room (.seek message target) with
          | some (labels, _) => some (labels, ⟨c.position + 2, rest⟩)
          | none => none
        else none
    | .invalid => none
termination_by (room, c.position)
decreasing_by
  · have := labelStart_pos h
    exact Prod.Lex.left _ _ (by omega)
  · exact Prod.Lex.right _ (by simpa [seek] using by assumption)

def name? (message : Octets) (c : Cursor) : Option (DomainName × Cursor) :=
  (labels? message nameLimit c).map fun (labels, behind) => (⟨labels⟩, behind)

end Cursor

end HostLookup
