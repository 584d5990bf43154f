import HostLookup.Message.Header
import HostLookup.Message.Question
import HostLookup.Message.Record

/-!
Messages: a header and its sections. A reply answers a request if it has the request's identity and
questions; its addresses are those of the records in its answer section.
-/
set_option autoImplicit false

namespace HostLookup

/-- Octets that begin with a header. -/
structure Message where
  octets : Octets
  header : Header
  deriving DecidableEq, Repr

namespace Message

def ofOctets? (os : Octets) : Option Message := (Header.decode os).map fun (h, _) => ⟨os, h⟩

/-- The place behind the header. -/
def body (m : Message) : Cursor := .seek m.octets Header.size

/-- The questions, and the place behind them; nothing if one of them cannot be read. -/
def questions? (m : Message) : Option (List Question × Cursor) :=
  Question.readMany? m.octets m.header.questions.toNat m.body

/-- Whether a message is a reply to a request. -/
def answers (reply request : Message) : Bool :=
  reply.header.isReply && reply.header.id == request.header.id &&
    reply.header.questions == request.header.questions &&
    match reply.questions?, request.questions? with
    | some (qs, _), some (rs, _) => Question.sameAll qs rs
    | _, _ => false

/-- The records of the answer section, up to the first one that cannot be read. -/
def answerRecords (m : Message) : List Record :=
  match m.questions? with
  | none => []
  | some (_, c) => Record.readUpTo m.octets m.header.answers.toNat c

/-- The addresses in the answer section. -/
def addresses (m : Message) : List Address := m.answerRecords.filterMap Record.address?

end Message

end HostLookup
