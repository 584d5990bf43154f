import HostLookup.Activity.Basic

/-!
Views of what happened: the connections with what was written to each, the destinations whose
sources were asked for, and what a resolver was asked by another one.
-/
set_option autoImplicit false

namespace HostLookup

/-- A connection that was begun, and what was written to it. -/
structure ConnectionTrace where
  transport : Transport
  server : Endpoint
  sent : List Octets
  deriving DecidableEq, Repr

namespace Trace

/-- What is written before the first connection of some events, and the connections. -/
def connectionsFrom : List Event → List Octets × List ConnectionTrace
  | [] => ([], [])
  | e :: es =>
    let (sent, connections) := connectionsFrom es
    match e.deed with
    | .dialed transport server => ([], ⟨transport, server, sent⟩ :: connections)
    | .sent os => (os :: sent, connections)
    | _ => (sent, connections)

/-- The connections, in the order they were begun. -/
def connections (es : List Event) : List ConnectionTrace := (connectionsFrom es).2

/-- The queries that were begun. -/
def queries (es : List Event) : List (Endpoint × RecordType) :=
  es.filterMap fun e =>
    match e.deed with
    | .queried server type => some (server, type)
    | _ => none

/-- The replies that were received, and whom they came from. -/
def replies (es : List Event) : List (Endpoint × Message) :=
  es.filterMap fun e =>
    match e.deed with
    | .replied server reply => some (server, reply)
    | _ => none

def probes (es : List Event) : List Address :=
  es.filterMap fun e =>
    match e.deed with
    | .probed a => some a
    | _ => none

/-- The networks and hosts asked for. -/
def questions (es : List Event) : List (String × String) :=
  es.filterMap fun e =>
    match e.deed with
    | .asked network host => some (network, host)
    | _ => none

end Trace

end HostLookup
