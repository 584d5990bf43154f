import HostLookup.Activity.Basic
import HostLookup.Failure.Io

/-!
Connections, by what happens on them. What arrives is a list of arrivals, each a while after the
one before; after the last one nothing more happens.
-/
set_option autoImplicit false

namespace HostLookup

/-- Something that comes `delay` after what came before it. -/
structure Arrival (α : Type) where
  delay : Nat
  item : α
  deriving DecidableEq, Repr

/-- A connection over which whole messages are sent and received. -/
structure DatagramSocket where
  /-- The number of octets that sending a datagram reports, unless it fails. -/
  send : Octets → Except IoFailure Nat
  /-- What is received once a datagram was sent. -/
  arrivals : Octets → List (Arrival (Except IoFailure Octets))

/-- Something that comes over a stream. -/
inductive Chunk where
  | octets (os : Octets)
  /-- The orderly end of the stream. -/
  | closed
  | failed (failure : IoFailure)
  deriving DecidableEq, Repr

/-- How far writing to a stream gets. -/
structure WriteLimit where
  /-- The number of octets that can be written. -/
  accepted : Nat
  /-- What writing any more fails with. -/
  failure : IoFailure
  deriving DecidableEq, Repr

/-- How the handshake of an encrypted connection ends. -/
inductive HandshakeEnd where
  | completed
  | failed (failure : IoFailure)
  | never
  deriving DecidableEq, Repr

/-- A connection that carries octets without bounds between messages. -/
structure StreamSocket where
  writeLimit : Option WriteLimit
  flushFailure : Option IoFailure
  /-- What comes once octets were written. -/
  arrivals : Octets → List (Arrival Chunk)
  /-- The handshake with a server at an address. -/
  handshake : Address → Arrival HandshakeEnd

inductive Connection where
  | datagram (socket : DatagramSocket)
  | stream (socket : StreamSocket)

/-- How making a connection ends. -/
inductive DialEnd where
  | connected (connection : Connection)
  | failed (failure : IoFailure)
  | never

/-- What happens when a connection is made to an endpoint to which `n` were made before. -/
abbrev Network := Transport → Endpoint → (n : Nat) → Arrival DialEnd

namespace Network

/-- Makes a connection. -/
def dial (net : Network) (transport : Transport) (server : Endpoint) :
    Activity (Except IoFailure Connection) := do
  let w ← Activity.world
  Activity.record (.dialed transport server)
  let a := net transport server (w.dialed.count server)
  Activity.sleep a.delay
  match a.item with
  | .connected connection => return .ok connection
  | .failed failure => return .error failure
  | .never => Activity.stall

end Network

namespace StreamSocket

/-- Performs the handshake with a server, to which something is said when it begins and when it
ends. -/
def shakeHands (s : StreamSocket) (server : Address) : Activity (Except IoFailure Unit) := do
  Activity.record .shook
  let a := s.handshake server
  Activity.sleep a.delay
  match a.item with
  | .completed =>
    Activity.record .shook
    return .ok ()
  | .failed failure =>
    Activity.record .shook
    return .error failure
  | .never => Activity.stall

/-- Writes octets; those that were accepted are seen on the other side. -/
def write (s : StreamSocket) (os : Octets) : Activity (Except IoFailure Unit) := do
  let accepted := match s.writeLimit with
    | some limit => os.take limit.accepted
    | none => os
  unless accepted.isEmpty do Activity.record (.sent accepted)
  match s.writeLimit with
  | some limit => return if limit.accepted < os.length then .error limit.failure else .ok ()
  | none => return .ok ()

/-- Passes on what was written. -/
def flush (s : StreamSocket) : Activity (Except IoFailure Unit) :=
  match s.flushFailure with
  | some failure => pure (.error failure)
  | none => pure (.ok ())

end StreamSocket

end HostLookup
