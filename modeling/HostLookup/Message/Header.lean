import HostLookup.Failure.Rcode
import HostLookup.Octets

/-!
Message headers: twelve octets with an identity, flags, and the number of entries in each of the
four sections.
-/
set_option autoImplicit false

namespace HostLookup

structure Header where
  id : UInt16
  /-- The flag that tells a reply from a request is the highest bit. -/
  flags : UInt8
  /-- The low four bits are the response code. -/
  moreFlags : UInt8
  questions : UInt16
  answers : UInt16
  authorities : UInt16
  additionals : UInt16
  deriving DecidableEq, Repr

namespace Header

/-- The number of octets of a header. -/
def size : Nat := 12

def encode (h : Header) : Octets :=
  wordOctets h.id ++ [h.flags, h.moreFlags] ++ wordOctets h.questions ++ wordOctets h.answers ++
    wordOctets h.authorities ++ wordOctets h.additionals

def decode : Octets → Option (Header × Octets)
  | i₁ :: i₀ :: f :: m :: q₁ :: q₀ :: a₁ :: a₀ :: n₁ :: n₀ :: r₁ :: r₀ :: rest =>
    some (⟨joinOctets i₁ i₀, f, m, joinOctets q₁ q₀, joinOctets a₁ a₀, joinOctets n₁ n₀,
      joinOctets r₁ r₀⟩, rest)
  | _ => none

def isReply (h : Header) : Bool := 128 ≤ h.flags.toNat

def rcode (h : Header) : Rcode := .ofNat h.moreFlags.toNat

@[simp] theorem decode_encode (h : Header) (rest : Octets) :
    decode (h.encode ++ rest) = some (h, rest) := by
  simp [encode, wordOctets, decode, joinOctets_splitWord]

@[simp] theorem length_encode (h : Header) : h.encode.length = size := rfl

theorem decode_isSome_iff (os : Octets) : (decode os).isSome ↔ size ≤ os.length := by
  constructor
  · intro h
    unfold decode at h
    split at h
    · simp only [List.length_cons, size]; omega
    · simp at h
  · intro h
    match os, h with
    | i₁ :: i₀ :: f :: m :: q₁ :: q₀ :: a₁ :: a₀ :: n₁ :: n₀ :: r₁ :: r₀ :: rest, _ => rfl

end Header

end HostLookup
