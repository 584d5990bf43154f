import HostLookup.Address.Reader
import HostLookup.Address.Printer
import HostLookup.Config.Protocol

/-!
Addresses of name servers. The port may be left open; then the protocol's default port is used. A
server is written as an address without a port, or as an endpoint.
-/
set_option autoImplicit false

namespace HostLookup

/-- The address of a server. -/
structure Server where
  address : Address
  port : Option UInt16
  deriving DecidableEq, Repr

namespace Server

def ofAddress (a : Address) : Server := ⟨a, none⟩

def withPort (a : Address) (port : UInt16) : Server := ⟨a, some port⟩

/-- Port 0 of an endpoint means that no port was given; the zone is dropped. -/
def ofEndpoint (e : Endpoint) : Server :=
  if e.port = 0 then ofAddress e.address else withPort e.address e.port

/-- The endpoint that is used with a protocol. -/
def endpoint (s : Server) (protocol : Protocol) : Endpoint :=
  .of s.address (s.port.getD protocol.defaultPort)

def ofChars? (cs : List Char) : Option Server :=
  (Address.ofChars? cs).map ofAddress <|> (Endpoint.ofChars? cs).map ofEndpoint

def ofString? (s : String) : Option Server := ofChars? s.toList

def chars (s : Server) : List Char :=
  match s.port with
  | some port => (Endpoint.of s.address port).chars
  | none => s.address.chars

instance : ToString Server where
  toString s := String.ofList s.chars

end Server

end HostLookup
