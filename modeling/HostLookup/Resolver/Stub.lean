import HostLookup.Query.Basic
import HostLookup.Resolver.Search
import HostLookup.Resolver.Servers
import HostLookup.Selection.Preference

/-!
The stub resolver asks the configured servers for the addresses of a name and puts them in the order
they should be tried. Literal addresses are answered on the spot.
-/
set_option autoImplicit false

namespace HostLookup

/-- A configuration, and what its lookups depend on. -/
structure Stub where
  config : Config
  network : Network
  /-- The source that a destination would be reached from. -/
  source : Address → Option Address
  /-- The identity of a request. -/
  messageId : World → UInt16
  /-- The draws that rearrange the servers, if they are rotated. -/
  draws : World → List Nat

namespace Stub

/-- The servers in the order they are asked. -/
def serverOrder (s : Stub) (w : World) : List Server :=
  if s.config.rotate ∧ 1 < s.config.servers.length then
    Servers.rearrange (s.draws w) s.config.servers
  else s.config.servers

/-- Asks for the source for a destination. -/
def probe (s : Stub) (a : Address) : Activity (Option Address) := do
  Activity.record (.probed a)
  return s.source a

def query (s : Stub) (cx : Context) (target : Target) (server : Server) (type : RecordType) :
    Activity Answer := do
  let w ← Activity.world
  Query.run s.network (s.messageId w) s.config cx target server type

/-- Asks the servers for the addresses of a name, and puts them in order. -/
def askServers (s : Stub) (cx : Context) (family : Family) (host : String) (target : Target) :
    Activity Answer := do
  let w ← Activity.world
  match ← Servers.askAll (s.query cx target) family.recordTypes (.ofHost host .notFound)
      (s.serverOrder w) none with
  | .error f => return .error f
  | .ok addrs =>
    let sorted? ← Selection.preferred? s.probe addrs
    return .ok (← Activity.ofOrder sorted?)

/-- Looks up a host that is not a literal address. -/
def lookupName (s : Stub) (cx : Context) (family : Family) (host : String) : Activity Answer :=
  match DomainName.ofHost? host with
  | none => pure (.error (.ofHost host .notFound))
  | some (text, name) =>
    if s.config.protocol.isSupported then s.askServers cx family host ⟨text, name⟩
    else pure (.error (.ofHost host .unsupportedProtocol))

def resolver (s : Stub) : Resolver := fun cx network host =>
  match Family.ofNetwork network host with
  | .error f => pure (.error f)
  | .ok family =>
    match Literal.answer? family host with
    | some answer => pure answer
    | none => s.lookupName cx family host

/-- The stub resolver under its configuration's search list. -/
def search (s : Stub) : Search := ⟨s.resolver, s.config.search, s.config.ndots⟩

end Stub

end HostLookup
