import HostLookup.Message.Request
import HostLookup.Network.Connection

/-!
Exchanging a request for its reply. Over datagrams everything that is no reply to the request is
passed over. Over a stream messages that are no reply are passed over too, but each has to have a
header.
-/
set_option autoImplicit false

namespace HostLookup

namespace Exchange

/-- The most octets of a datagram that are received. -/
def bufferSize : Nat := 4096

def shortSend : IoFailure := ⟨.other, "short UDP send"⟩

def shortMessage : IoFailure := ⟨.invalidData, "short message"⟩

/-- The reply in a datagram, if it is one. -/
def replyIn? (request : Message) (datagram : Octets) : Option Message :=
  (Message.ofOctets? (datagram.take bufferSize)).filter fun m => m.answers request

/-- Receives datagrams until one is the reply or receiving fails. -/
def receive (request : Message) :
    List (Arrival (Except IoFailure Octets)) → Activity (Except IoFailure Message)
  | [] => Activity.stall
  | a :: arrivals => do
    Activity.sleep a.delay
    match a.item with
    | .error failure => return .error failure
    | .ok datagram =>
      match replyIn? request datagram with
      | some reply => return .ok reply
      | none => receive request arrivals

/-- Sends a request as a datagram and waits for the reply. -/
def overDatagrams (s : DatagramSocket) (r : Request) : Activity (Except IoFailure Message) := do
  match s.send r.octets with
  | .error failure => return .error failure
  | .ok n =>
    Activity.record (.sent r.octets)
    if n ≠ r.octets.length then return .error shortSend
    else receive r.message (s.arrivals r.octets)

/-- The first message in a stream's octets, if all of it is there, and what follows it. -/
def takeFrame : Octets → Option (Octets × Octets)
  | high :: low :: rest =>
    let n := (joinOctets high low).toNat
    if n ≤ rest.length then some (rest.take n, rest.drop n) else none
  | _ => none

theorem length_takeFrame_lt {os m rest : Octets} (h : takeFrame os = some (m, rest)) :
    rest.length < os.length := by
  match os, h with
  | high :: low :: tail, h =>
    rw [takeFrame] at h
    split at h
    · cases h
      simp only [List.length_drop, List.length_cons]
      omega
    · cases h

/-- What is found in the octets read so far. -/
inductive Scan where
  | replied (reply : Message)
  /-- A message has no header. -/
  | short
  /-- More octets are needed behind those of a message begun. -/
  | waiting (begun : Octets)
  deriving DecidableEq, Repr

/-- Looks through the complete messages for the reply. -/
def scan (request : Message) (os : Octets) : Scan :=
  match h : takeFrame os with
  | none => .waiting os
  | some (m, rest) =>
    match Message.ofOctets? m with
    | none => .short
    | some m =>
      if m.answers request then .replied m
      else
        have := length_takeFrame_lt h
        scan request rest
termination_by os.length

/-- The end of a stream in the middle of a message, or where one should begin. -/
def cutShort (begun : Octets) : IoFailure :=
  if begun.length < 2 then .of .unexpectedEof else ⟨.unexpectedEof, "early eof"⟩

/-- Reads a stream until it brought the reply. -/
def readReply (request : Message) (begun : Octets) :
    List (Arrival Chunk) → Activity (Except IoFailure Message)
  | [] => Activity.stall
  | a :: arrivals => do
    Activity.sleep a.delay
    match a.item with
    | .failed failure => return .error failure
    | .closed => return .error (cutShort begun)
    | .octets os =>
      match scan request (begun ++ os) with
      | .replied reply => return .ok reply
      | .short => return .error shortMessage
      | .waiting begun => readReply request begun arrivals

/-- Writes a request to a stream and reads the reply. -/
def overStream (s : StreamSocket) (r : Request) : Activity (Except IoFailure Message) := do
  match ← s.write (Request.framed r.octets) with
  | .error failure => return .error failure
  | .ok () =>
    match ← s.flush with
    | .error failure => return .error failure
    | .ok () => readReply r.message [] (s.arrivals r.octets)

def run (c : Connection) (r : Request) : Activity (Except IoFailure Message) :=
  match c with
  | .datagram s => overDatagrams s r
  | .stream s => overStream s r

end Exchange

end HostLookup
