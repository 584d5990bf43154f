import HostLookup.Network.Handshake

/-!
Scripted networks: for each endpoint, what happens on one connection after the other. The last
attempt of an endpoint repeats, and endpoints without any refuse connections.
-/
set_option autoImplicit false

namespace HostLookup

/-- What a server does once it has received a request. -/
inductive Reply where
  /-- Sends a message with the identity of the request, changed by a mask; on a stream behind its
  length, or behind another number. -/
  | message (os : Octets) (mask : UInt16) (length : Option UInt16)
  /-- Sends octets as they are. -/
  | octets (os : Octets)
  /-- Ends the connection. -/
  | close
  /-- Receiving fails. -/
  | fail (failure : IoFailure)
  deriving DecidableEq, Repr

inductive ConnectionKind where
  | datagram
  | stream
  deriving DecidableEq, Repr

/-- What happens when one connection is made. -/
structure Attempt where
  /-- How long it takes until the connection is made, fails, or proves to take for ever. -/
  delay : Nat
  hangs : Bool
  failure : Option IoFailure
  /-- The kind of connection, unless it is the usual one. -/
  kind : Option ConnectionKind
  replies : List (Arrival Reply)
  /-- Replies to requests with certain octets behind the header; they go first. -/
  byQuestion : List (Octets × List (Arrival Reply))
  sendFailure : Option IoFailure
  /-- The number of octets reported sent, if it is not the true one. -/
  sendLength : Option Nat
  /-- The most octets that are read at once. -/
  readSize : Option Nat
  writeLimit : Option WriteLimit
  flushFailure : Option IoFailure
  handshakeDelay : Nat
  handshake : HandshakeSide
  deriving Repr

namespace Reply

/-- A message with another identity, as far as it has one. -/
def withId (request : Octets) (mask : UInt16) (os : Octets) : Octets :=
  match takeWord request with
  | some (id, _) => (wordOctets (id ^^^ mask)).take os.length ++ os.drop 2
  | none => os

/-- A reply as something received over datagrams. -/
def datagram (request : Octets) : Reply → Option (Except IoFailure Octets)
  | message os mask _ => some (.ok (withId request mask os))
  | octets os => some (.ok os)
  | close => none
  | fail failure => some (.error failure)

/-- The datagrams that arrive; nothing does once the connection is ended. -/
def datagrams (request : Octets) :
    List (Arrival Reply) → List (Arrival (Except IoFailure Octets))
  | [] => []
  | a :: as =>
    match a.item.datagram request with
    | some item => ⟨a.delay, item⟩ :: datagrams request as
    | none => []

/-- A reply as something that comes over a stream. -/
def chunk (request : Octets) : Reply → Chunk
  | message os mask length =>
    let m := withId request mask os
    .octets (wordOctets (length.getD (UInt16.ofNat m.length)) ++ m)
  | octets os => .octets os
  | close => .closed
  | fail failure => .failed failure

/-- The octets in pieces of at most `size`, which is taken to be at least one. -/
def pieces (size : Nat) (os : Octets) : List Octets :=
  if os.length ≤ max size 1 then [os]
  else os.take (max size 1) :: pieces size (os.drop (max size 1))
termination_by os.length
decreasing_by
  simp only [List.length_drop]
  omega

/-- A chunk as it is read, in pieces that are there at the same time. -/
def inPieces (size : Option Nat) (a : Arrival Chunk) : List (Arrival Chunk) :=
  match size, a.item with
  | some size, .octets os =>
    match pieces size os with
    | [] => []
    | piece :: more => ⟨a.delay, .octets piece⟩ :: more.map fun p => ⟨0, .octets p⟩
  | _, _ => [a]

end Reply

namespace Attempt

/-- What the server does with a request. -/
def repliesTo (a : Attempt) (request : Octets) : List (Arrival Reply) :=
  (a.byQuestion.lookup (request.drop 12)).getD a.replies

def datagramSocket (a : Attempt) : DatagramSocket where
  send os :=
    match a.sendFailure with
    | some failure => .error failure
    | none => .ok (a.sendLength.getD os.length)
  arrivals request := Reply.datagrams request (a.repliesTo request)

/-- What the first writing of a handshake fails with. -/
def handshakeFailure (a : Attempt) : Option IoFailure :=
  (a.writeLimit.map WriteLimit.failure).or a.flushFailure

def streamSocket (a : Attempt) : StreamSocket where
  writeLimit := a.writeLimit
  flushFailure := a.flushFailure
  arrivals request :=
    (a.repliesTo request).flatMap fun r =>
      Reply.inPieces a.readSize ⟨r.delay, r.item.chunk request⟩
  handshake server :=
    match a.handshakeFailure with
    | some failure => ⟨0, .failed failure⟩
    | none => ⟨a.handshakeDelay, a.handshake.outcome server⟩

/-- Datagrams are usual over `udp`, and streams over `tcp`. -/
def kindOver (a : Attempt) (transport : Transport) : ConnectionKind :=
  a.kind.getD (match transport with
    | .udp => .datagram
    | .tcp => .stream)

def dialEnd (a : Attempt) (transport : Transport) : DialEnd :=
  if a.hangs then .never
  else
    match a.failure with
    | some failure => .failed failure
    | none =>
      match a.kindOver transport with
      | .datagram => .connected (.datagram a.datagramSocket)
      | .stream => .connected (.stream a.streamSocket)

end Attempt

/-- The attempts at each endpoint. -/
abbrev Script := List (Endpoint × List Attempt)

namespace Script

def refused : DialEnd := .failed ⟨.connectionRefused, "refused"⟩

def network (script : Script) : Network := fun transport server n =>
  match (script.lookup server).getD [] with
  | [] => ⟨0, refused⟩
  | a :: as =>
    let attempt := (a :: as).getD n ((a :: as).getLast (by simp))
    ⟨attempt.delay, attempt.dialEnd transport⟩

end Script

end HostLookup
