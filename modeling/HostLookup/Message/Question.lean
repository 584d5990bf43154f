import HostLookup.Message.Cursor

/-!
Questions: a name, and the type and class of the records asked for.
-/
set_option autoImplicit false

namespace HostLookup

structure Question where
  name : DomainName
  type : UInt16
  cls : UInt16
  deriving DecidableEq, Repr

namespace Question

/-- The class of internet records. -/
def internet : UInt16 := 1

def encode (q : Question) : Octets := q.name.wire ++ wordOctets q.type ++ wordOctets q.cls

/-- The same question, up to the case of ASCII letters in the name. -/
def same (q r : Question) : Bool :=
  q.name.sameUpToCase r.name && q.type == r.type && q.cls == r.cls

def read? (message : Octets) (c : Cursor) : Option (Question × Cursor) := do
  let (name, c) ← c.name? message
  let (type, c) ← c.word?
  let (cls, c) ← c.word?
  return (⟨name, type, cls⟩, c)

/-- Reads `n` questions. -/
def readMany? (message : Octets) : Nat → Cursor → Option (List Question × Cursor)
  | 0, c => some ([], c)
  | n + 1, c => do
    let (q, c) ← read? message c
    let (qs, c) ← readMany? message n c
    return (q :: qs, c)

/-- The same questions in the same order. -/
def sameAll : List Question → List Question → Bool
  | [], [] => true
  | q :: qs, r :: rs => q.same r && sameAll qs rs
  | _, _ => false

end Question

end HostLookup
