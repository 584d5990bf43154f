import HostLookup.Proofs.Activity.Interruption
import HostLookup.Resolver.Search
import HostLookup.Resolver.Servers

/-!
Laws of loops. A law that single questions follow, and that is kept in sequence, is followed by
asking servers and trying names in turn; and their times add up.
-/
set_option autoImplicit false

namespace HostLookup

open Activity

variable {R : Law} {n : Nat}

namespace Servers

theorem askTypes_obeys (hR : Composes R) {ask : RecordType → Activity Answer}
    (h : ∀ type, Obeys R (ask type)) (types : List RecordType) (gathered : List Address)
    (first : Option Failure) : Obeys R (askTypes ask types gathered first) := by
  induction types generalizing gathered first with
  | nil => exact .pure hR _
  | cons type types ih =>
    rw [askTypes]
    apply Obeys.bind hR (h type)
    intro answer
    split
    · exact ih _ _
    · split
      · exact .pure hR _
      · exact ih _ _

theorem askAll_obeys (hR : Composes R) {ask : Server → RecordType → Activity Answer}
    (h : ∀ server type, Obeys R (ask server type)) (types : List RecordType) (none : Failure)
    (servers : List Server) (first : Option Failure) :
    Obeys R (askAll ask types none servers first) := by
  induction servers generalizing first with
  | nil => exact .pure hR _
  | cons server servers ih =>
    rw [askAll]
    apply Obeys.bind hR (askTypes_obeys hR (h server) types [] first)
    intro row
    split
    · exact .pure hR _
    · split
      · exact ih _
      · exact .pure hR _

theorem askTypes_endsWithin {ask : RecordType → Activity Answer}
    (h : ∀ type, EndsWithin n (ask type)) (types : List RecordType) (gathered : List Address)
    (first : Option Failure) :
    EndsWithin (n * types.length) (askTypes ask types gathered first) := by
  induction types generalizing gathered first with
  | nil => exact .pure _
  | cons type types ih =>
    rw [askTypes, List.length_cons, Nat.mul_succ, Nat.add_comm]
    apply EndsWithin.bind (h type)
    intro answer
    split
    · exact ih _ _
    · split
      · exact .pure _
      · exact ih _ _

theorem askAll_endsWithin {ask : Server → RecordType → Activity Answer}
    (h : ∀ server type, EndsWithin n (ask server type)) (types : List RecordType)
    (none : Failure) (servers : List Server) (first : Option Failure) :
    EndsWithin (n * servers.length * types.length) (askAll ask types none servers first) := by
  induction servers generalizing first with
  | nil => exact .pure _
  | cons server servers ih =>
    have hcount : n * (servers.length + 1) * types.length =
        n * types.length + n * servers.length * types.length := by
      rw [Nat.mul_succ, Nat.add_mul, Nat.add_comm]
    rw [askAll, List.length_cons, hcount]
    apply EndsWithin.bind (askTypes_endsWithin (h server) types [] first)
    intro row
    split
    · exact .pure _
    · split
      · exact ih _
      · exact .pure _

end Servers

namespace Search

theorem tryAll_obeys (hR : Composes R) {ask : String → Activity Answer}
    (h : ∀ name, Obeys R (ask name)) {isDone : Activity Bool} (hd : Obeys R isDone)
    (none : Failure) (first : Option Failure) (names : List String) :
    Obeys R (tryAll ask isDone none first names) := by
  induction names generalizing first with
  | nil => exact .pure hR _
  | cons name names ih =>
    rw [tryAll]
    apply Obeys.bind hR (h name)
    intro answer
    split
    · exact .pure hR _
    · apply Obeys.bind hR hd
      intro finished
      split
      · exact .pure hR _
      · exact ih _

theorem tryAll_endsWithin {ask : String → Activity Answer} (h : ∀ name, EndsWithin n (ask name))
    {isDone : Activity Bool} (hd : EndsWithin 0 isDone) (none : Failure) (first : Option Failure)
    (names : List String) : EndsWithin (n * names.length) (tryAll ask isDone none first names) := by
  induction names generalizing first with
  | nil => exact .pure _
  | cons name names ih =>
    rw [tryAll, List.length_cons, Nat.mul_succ, Nat.add_comm]
    apply EndsWithin.bind (h name)
    intro answer
    split
    · exact .pure _
    · rw [← Nat.zero_add (n * names.length)]
      apply EndsWithin.bind hd
      intro finished
      split
      · exact .pure _
      · exact ih _

theorem length_candidates_le (list : SearchList) (ndots : Nat) (host : String) :
    (candidates list ndots host).length ≤ list.entries.length + 1 := by
  unfold candidates
  split
  · simp
  · dsimp only
    split
    · simp
    · simp

end Search

end HostLookup
