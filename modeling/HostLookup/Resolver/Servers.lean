import HostLookup.Config.Server
import HostLookup.Resolver.Literal

/-!
Asking servers in turn, each for every type of records. The first server with any address decides; a
final failure ends the lookup at once, and otherwise the first failure is reported if there is no
address at all.
-/
set_option autoImplicit false

namespace HostLookup

namespace Servers

/-- Asks one server for types of records, gathering addresses and keeping the first failure. -/
def askTypes (ask : RecordType → Activity Answer) :
    List RecordType → List Address → Option Failure →
      Activity (Except Failure (List Address × Option Failure))
  | [], gathered, first => pure (.ok (gathered, first))
  | type :: types, gathered, first => do
    match ← ask type with
    | .ok addrs => askTypes ask types (gathered ++ addrs) first
    | .error f =>
      if f.isFatal then return .error f
      else askTypes ask types gathered (some (first.getD f))

/-- Asks servers until one has an address. -/
def askAll (ask : Server → RecordType → Activity Answer) (types : List RecordType)
    (none : Failure) : List Server → Option Failure → Activity Answer
  | [], first => pure (.error (first.getD none))
  | server :: servers, first => do
    match ← askTypes (ask server) types [] first with
    | .error f => return .error f
    | .ok (addrs, first) =>
      if addrs.isEmpty then askAll ask types none servers first else return .ok addrs

/-- A rearrangement: each draw picks the next one among those that are left. -/
def rearrange {α : Type} : List Nat → List α → List α
  | [], as => as
  | draw :: draws, as =>
    match as[draw % as.length]? with
    | none => as
    | some a => a :: rearrange draws (as.eraseIdx (draw % as.length))

theorem rearrange_perm {α : Type} (draws : List Nat) (as : List α) :
    (rearrange draws as).Perm as := by
  induction draws generalizing as with
  | nil => exact .refl as
  | cons draw draws ih =>
    rw [rearrange]
    split
    · exact .refl as
    · rename_i a h
      obtain ⟨h, rfl⟩ := List.getElem?_eq_some_iff.1 h
      refine ((ih _).cons _).trans ?_
      rw [List.eraseIdx_eq_take_drop_succ]
      refine List.perm_middle.symm.trans (.of_eq ?_)
      rw [List.getElem_cons_drop, List.take_append_drop]

end Servers

end HostLookup
