import HostLookup.Context.Clock

/-!
Cancellation tokens form a tree: a token knows the tokens it descends from, and is cancelled as soon
as one of them or itself is.
-/
set_option autoImplicit false

namespace HostLookup

/-- A token, by its identity and those of the tokens it descends from. -/
structure Token where
  id : Nat
  ancestors : List Nat
  deriving DecidableEq, Repr

/-- That the token with an identity is cancelled at an instant, which may lie in the future. -/
structure Cancellation where
  id : Nat
  time : Nat
  deriving DecidableEq, Repr

namespace Token

def root (id : Nat) : Token := ⟨id, []⟩

def child (parent : Token) (id : Nat) : Token := ⟨id, parent.id :: parent.ancestors⟩

/-- The identities whose cancellation cancels the token. -/
def lineage (t : Token) : List Nat := t.id :: t.ancestors

/-- The earliest cancellation of the token among `cs`. -/
def cancelTime (t : Token) : List Cancellation → Option Nat
  | [] => none
  | c :: cs =>
    if c.id ∈ t.lineage then Clock.earlier (some c.time) (t.cancelTime cs) else t.cancelTime cs

/-- The token is cancelled at `now`. -/
def isCancelled (t : Token) (cs : List Cancellation) (now : Nat) : Bool :=
  match t.cancelTime cs with
  | none => false
  | some time => time ≤ now

@[simp] theorem lineage_child (t : Token) (id : Nat) :
    (t.child id).lineage = id :: t.lineage := rfl

end Token

end HostLookup
