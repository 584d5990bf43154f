/-!
Transport protocols for talking to servers, and the plain networks below them.
-/
set_option autoImplicit false

namespace HostLookup

/-- A plain network that connections are made over. -/
inductive Transport where
  | udp
  | tcp
  deriving DecidableEq, Repr

namespace Transport

def name : Transport → String
  | udp => "udp"
  | tcp => "tcp"

end Transport

/-- The protocol spoken with the servers; `tls` is encrypted and runs over `tcp`. -/
inductive Protocol where
  | udp
  | tcp
  | tls
  deriving DecidableEq, Repr

namespace Protocol

def name : Protocol → String
  | udp => "udp"
  | tcp => "tcp"
  | tls => "tls"

def defaultPort : Protocol → UInt16
  | udp => 53
  | tcp => 53
  | tls => 853

def transport : Protocol → Transport
  | udp => .udp
  | tcp => .tcp
  | tls => .tcp

/-- Every protocol is available. -/
def isSupported : Protocol → Bool
  | udp | tcp | tls => true

/-- Protocol names may have any case, and `dot` is another name for `tls`. -/
def ofName? (s : String) : Option Protocol :=
  match String.ofList (s.toList.map Char.toLower) with
  | "udp" => some udp
  | "tcp" => some tcp
  | "tls" => some tls
  | "dot" => some tls
  | _ => none

instance : Inhabited Protocol := ⟨udp⟩

theorem ofName?_name (p : Protocol) : ofName? p.name = some p := by
  cases p <;> decide

end Protocol

end HostLookup
