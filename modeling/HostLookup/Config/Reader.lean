import HostLookup.Config.Line
import HostLookup.Octets

/-!
Reading a configuration as it arrives, in pieces of any size. Lines end with a line feed, and the
last one may lack it; each has to be UTF-8. Reading stops at the first fault; a failure to deliver
more drops the line begun, unless it only says to try again.
-/
set_option autoImplicit false

namespace HostLookup

open Text

namespace Config

/-- What one attempt to read more brings. -/
inductive Delivery where
  /-- Some octets; none at all mean that the text ends here. -/
  | octets (os : Octets)
  | failed (failure : IoFailure)
  deriving DecidableEq, Repr

def invalidText : Fault := .io ⟨.invalidData, "stream did not contain valid UTF-8"⟩

/-- Reads one line given by its octets. -/
def readOctets (c : Config) (line : Octets) : Reading :=
  match String.fromUTF8? (ByteArray.mk line.toArray) with
  | none => ⟨c, some invalidText⟩
  | some s => c.readLine s.toList

/-- Goes on with what was read, unless there was a fault. -/
def Reading.andThen (r : Reading) (next : Config → Reading) : Reading :=
  match r.fault with
  | none => next r.config
  | some _ => r

def readLines (c : Config) : List Octets → Reading
  | [] => c.done
  | line :: lines => (c.readOctets line).andThen fun c => c.readLines lines

/-- The text ends; what is pending is its last line. -/
def readRest (c : Config) (pending : Octets) : Reading :=
  if pending.isEmpty then c.done else c.readOctets pending

/-- The octet that ends a line. -/
def lineFeed : UInt8 := 10

/-- The complete lines in some octets, and the line that is begun. -/
def cutLines (os : Octets) : List Octets × Octets :=
  let pieces := split (· == lineFeed) os
  (pieces.dropLast, pieces.getLast?.getD [])

/-- Reads what is delivered, behind the octets of a line begun. -/
def readFrom (c : Config) (pending : Octets) : List Delivery → Reading
  | [] => c.readRest pending
  | .failed failure :: ds =>
    if failure.kind = .interrupted then c.readFrom pending ds
    else ⟨c, some (.io failure)⟩
  | .octets [] :: ds =>
    if pending.isEmpty then c.done
    else (c.readOctets pending).andThen fun c => c.readFrom [] ds
  | .octets (o :: os) :: ds =>
    let (lines, begun) := cutLines (pending ++ o :: os)
    (c.readLines lines).andThen fun c => c.readFrom begun ds

/-- Reads a text that is delivered whole. -/
def read (c : Config) (os : Octets) : Reading := c.readFrom [] [.octets os]

/-- What can be found under a file's name. -/
inductive File where
  | contents (os : Octets)
  | missing
  | directory
  deriving DecidableEq, Repr

/-- What reading a file brings. -/
def File.deliveries : File → List Delivery
  | contents os => [.octets os]
  | missing => [.failed ⟨.notFound, "No such file or directory (os error 2)"⟩]
  | directory => [.failed ⟨.isADirectory, "Is a directory (os error 21)"⟩]

end Config

end HostLookup
