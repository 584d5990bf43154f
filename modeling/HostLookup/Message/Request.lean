import HostLookup.Message.Basic

/-!
Requests: one question for the address records of a name, which the server is asked to pursue. On a
stream a message follows its length.
-/
set_option autoImplicit false

namespace HostLookup

structure Request where
  id : UInt16
  name : DomainName
  type : RecordType
  deriving DecidableEq, Repr

namespace Request

/-- The flags of a request: only that recursion is desired. -/
def flags : UInt8 := 1

def header (r : Request) : Header := ⟨r.id, flags, 0, 1, 0, 0, 0⟩

def question (r : Request) : Question := ⟨r.name, r.type.code, Question.internet⟩

def octets (r : Request) : Octets := r.header.encode ++ r.question.encode

def message (r : Request) : Message := ⟨r.octets, r.header⟩

/-- A message behind its length, as it is sent over a stream. -/
def framed (os : Octets) : Octets := wordOctets (UInt16.ofNat os.length) ++ os

theorem ofOctets?_octets (r : Request) : Message.ofOctets? r.octets = some r.message := by
  simp [Message.ofOctets?, octets, message]

end Request

end HostLookup
