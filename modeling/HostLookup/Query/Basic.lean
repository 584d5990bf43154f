import HostLookup.Activity.Guard
import HostLookup.Config.Basic
import HostLookup.Query.Exchange
import HostLookup.Resolver.Literal

/-!
Queries: one server is asked for one type of records of one name. A connection is made, encrypted if
the protocol asks for it, and used for one exchange. The time that the query may take is fixed when
it starts, and each step is guarded by it.
-/
set_option autoImplicit false

namespace HostLookup

/-- A host's name, as it is reported and as it is asked for. -/
structure Target where
  text : String
  name : DomainName
  deriving DecidableEq, Repr

namespace Query

/-- A failure to talk with the server, which may go away. -/
def transport (failure : IoFailure) : Detail := .flagged (.transport failure) true

/-- Running out of time while connecting or talking. -/
def interrupted : Detail := .flagged .timeout true

def datagramForTls : IoFailure := ⟨.unsupported, "datagram connection for TLS"⟩

/-- What a reply says by its response code. -/
def classify (reply : Message) : Except Detail Message :=
  let rcode := reply.header.rcode
  if rcode = .noError then .ok reply
  else if rcode = .nameError then .error (.of .notFound)
  else .error (.flagged (.serverMisbehaving rcode) (rcode == .serverFailure))

/-- What guarded work that can fail comes to. -/
def settle {α : Type} (onFailure : IoFailure → Detail) (onCut : Detail) :
    Option (Except IoFailure α) → Except Detail α
  | none => .error onCut
  | some (.error failure) => .error (onFailure failure)
  | some (.ok a) => .ok a

/-- Encrypts a connection if the protocol asks for it. A failed handshake is final. -/
def secure (cx : Context) (deadline : Option Nat) (protocol : Protocol) (server : Address)
    (c : Connection) : Activity (Except Detail Unit) :=
  match protocol, c with
  | .udp, _ | .tcp, _ => pure (.ok ())
  | .tls, .datagram _ => pure (.error (transport datagramForTls))
  | .tls, .stream s => do
    let shaken ← Activity.guarded cx deadline (s.shakeHands server)
    return settle (fun failure => .of (.handshake failure)) (.of .timeout) shaken

/-- Asks a server, until a deadline. -/
def ask (net : Network) (cx : Context) (deadline : Option Nat) (protocol : Protocol)
    (server : Endpoint) (r : Request) : Activity (Except Detail Message) := do
  let dialed ← Activity.guarded cx deadline (net.dial protocol.transport server)
  match settle transport interrupted dialed with
  | .error d => return .error d
  | .ok c =>
    match ← secure cx deadline protocol server.address c with
    | .error d => return .error d
    | .ok () =>
      let reply ← Activity.guarded cx deadline (Exchange.run c r)
      match settle transport interrupted reply with
      | .error d => return .error d
      | .ok reply =>
        Activity.record (.replied server reply)
        return classify reply

/-- Asks a server for the addresses of a name in the records of a type. -/
def run (net : Network) (id : UInt16) (config : Config) (cx : Context) (target : Target)
    (server : Server) (type : RecordType) : Activity Answer := do
  let w ← Activity.world
  let endpoint := server.endpoint config.protocol
  Activity.record (.queried endpoint type)
  let deadline ← Activity.ofClock (cx.effectiveDeadline? w.now config.timeout)
  match ← ask net cx deadline config.protocol endpoint ⟨id, target.name, type⟩ with
  | .ok reply => return .ok reply.addresses
  | .error d => return .error ⟨(Subject.host target.text).withServer endpoint, d⟩

end Query

end HostLookup
