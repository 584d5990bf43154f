/-!
Failures of reading and writing: a kind and a text. Each kind has a text of its own, which stands
where nothing more is known.
-/
set_option autoImplicit false

namespace HostLookup

inductive IoKind where
  | addrInUse
  | addrNotAvailable
  | alreadyExists
  | brokenPipe
  | connectionAborted
  | connectionRefused
  | connectionReset
  | interrupted
  | invalidData
  | invalidInput
  | isADirectory
  | notConnected
  | notFound
  | other
  | outOfMemory
  | permissionDenied
  | timedOut
  | unexpectedEof
  | unsupported
  | wouldBlock
  | writeZero
  deriving DecidableEq, Repr

namespace IoKind

def all : List IoKind :=
  [addrInUse, addrNotAvailable, alreadyExists, brokenPipe, connectionAborted, connectionRefused,
    connectionReset, interrupted, invalidData, invalidInput, isADirectory, notConnected, notFound,
    other, outOfMemory, permissionDenied, timedOut, unexpectedEof, unsupported, wouldBlock,
    writeZero]

def name : IoKind → String
  | addrInUse => "AddrInUse"
  | addrNotAvailable => "AddrNotAvailable"
  | alreadyExists => "AlreadyExists"
  | brokenPipe => "BrokenPipe"
  | connectionAborted => "ConnectionAborted"
  | connectionRefused => "ConnectionRefused"
  | connectionReset => "ConnectionReset"
  | interrupted => "Interrupted"
  | invalidData => "InvalidData"
  | invalidInput => "InvalidInput"
  | isADirectory => "IsADirectory"
  | notConnected => "NotConnected"
  | notFound => "NotFound"
  | other => "Other"
  | outOfMemory => "OutOfMemory"
  | permissionDenied => "PermissionDenied"
  | timedOut => "TimedOut"
  | unexpectedEof => "UnexpectedEof"
  | unsupported => "Unsupported"
  | wouldBlock => "WouldBlock"
  | writeZero => "WriteZero"

def ofName? (s : String) : Option IoKind := all.find? fun kind => kind.name == s

def description : IoKind → String
  | addrInUse => "address in use"
  | addrNotAvailable => "address not available"
  | alreadyExists => "entity already exists"
  | brokenPipe => "broken pipe"
  | connectionAborted => "connection aborted"
  | connectionRefused => "connection refused"
  | connectionReset => "connection reset"
  | interrupted => "operation interrupted"
  | invalidData => "invalid data"
  | invalidInput => "invalid input parameter"
  | isADirectory => "is a directory"
  | notConnected => "not connected"
  | notFound => "entity not found"
  | other => "other error"
  | outOfMemory => "out of memory"
  | permissionDenied => "permission denied"
  | timedOut => "timed out"
  | unexpectedEof => "unexpected end of file"
  | unsupported => "unsupported"
  | wouldBlock => "operation would block"
  | writeZero => "write zero"

theorem ofName?_name (kind : IoKind) : ofName? kind.name = some kind := by
  cases kind <;> decide

end IoKind

/-- A failure of reading or writing. -/
structure IoFailure where
  kind : IoKind
  text : String
  deriving DecidableEq, Repr

namespace IoFailure

/-- A failure of which only the kind is known. -/
def of (kind : IoKind) : IoFailure := ⟨kind, kind.description⟩

end IoFailure

end HostLookup
