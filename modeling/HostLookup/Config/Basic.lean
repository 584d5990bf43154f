import HostLookup.Config.SearchList
import HostLookup.Config.Server
import HostLookup.Failure.Io

/-!
Resolver configurations: the servers and how they are asked.
-/
set_option autoImplicit false

namespace HostLookup

structure Config where
  protocol : Protocol
  servers : List Server
  /-- Whether each lookup asks the servers in an order of its own. -/
  rotate : Bool
  /-- The milliseconds that a query may take; zero stands for any time. -/
  timeout : Nat
  search : SearchList
  /-- The number of dots from which a name is tried as it is before it is completed. -/
  ndots : Nat
  deriving DecidableEq, Repr

namespace Config

/-- A configuration without servers. -/
def initial : Config where
  protocol := .udp
  servers := []
  rotate := false
  timeout := 5000
  search := .empty
  ndots := 1

def addServer (c : Config) (s : Server) : Config := { c with servers := c.servers ++ [s] }

/-- Where no server is configured, one on the own host is used. -/
def finalize (c : Config) : Config :=
  if c.servers.isEmpty then c.addServer (.ofAddress (.v4 .localhost)) else c

/-- Why a configuration could not be read. -/
inductive Fault where
  /-- A line is not of the format. -/
  | malformed
  /-- The text could not be had. -/
  | io (failure : IoFailure)
  deriving DecidableEq, Repr

namespace Fault

def message : Fault → String
  | malformed => "error parsing configuration"
  | io failure => failure.text

end Fault

/-- How far reading got, and what stopped it. -/
structure Reading where
  config : Config
  fault : Option Fault
  deriving DecidableEq, Repr

end Config

end HostLookup
