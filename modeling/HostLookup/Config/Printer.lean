import HostLookup.Config.Basic
import HostLookup.Text.Numeral

/-!
The written form of a configuration: a line for each server, one for the search list and one for
options. What has its initial value is not written.
-/
set_option autoImplicit false

namespace HostLookup

open Text

namespace Config

def serverLine (s : Server) : List Char := "nameserver ".toList ++ s.chars ++ ['\n']

def searchLine (l : SearchList) : List Char :=
  if l.entries.isEmpty then []
  else "search".toList ++ l.entries.flatMap (fun e => ' ' :: e.toList) ++ ['\n']

/-- Whole seconds of the time a query may take. -/
def timeoutSeconds (c : Config) : Nat := c.timeout / 1000

/-- The options that differ from the initial ones. -/
def optionWords (c : Config) : List (List Char) :=
  (if c.ndots = initial.ndots then [] else ["ndots:".toList ++ decimal c.ndots]) ++
  (if c.timeout = initial.timeout then [] else ["timeout:".toList ++ decimal c.timeoutSeconds]) ++
  (if c.rotate then ["rotate".toList] else []) ++
  (if c.protocol = .tcp then ["use-vc".toList] else [])

def optionsLine (ws : List (List Char)) : List Char :=
  if ws.isEmpty then []
  else "options ".toList ++ [' '].intercalate ws ++ ['\n']

def chars (c : Config) : List Char :=
  c.servers.flatMap serverLine ++ searchLine c.search ++ optionsLine c.optionWords

instance : ToString Config where
  toString c := String.ofList c.chars

end Config

end HostLookup
