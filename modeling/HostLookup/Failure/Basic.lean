import HostLookup.Address.Printer
import HostLookup.Failure.Io
import HostLookup.Failure.Rcode

/-!
Failed lookups. A failure says what was looked up and, once a server was contacted, where; what
went wrong; and by two flags, whether a deadline or a cancellation cut it short and whether asking
again may help.
-/
set_option autoImplicit false

namespace HostLookup

/-- What went wrong. -/
inductive Cause where
  /-- The name does not exist, or is not the name of a host. -/
  | notFound
  /-- The network name stands for no address family. -/
  | unsupportedNetwork
  /-- The protocol is not available. -/
  | unsupportedProtocol
  /-- The server answered with a response code that settles nothing. -/
  | serverMisbehaving (rcode : Rcode)
  /-- Connecting to or talking with the server failed. -/
  | transport (failure : IoFailure)
  /-- The handshake of an encrypted connection failed. -/
  | handshake (failure : IoFailure)
  /-- The deadline passed, or the lookup was cancelled. -/
  | timeout
  deriving DecidableEq, Repr

namespace Cause

def text : Cause → String
  | notFound => "no such host"
  | unsupportedNetwork => "unsupported network"
  | unsupportedProtocol => "unsupported protocol"
  | serverMisbehaving rcode =>
    "unexpected return code " ++ rcode.text ++ ": server misbehaving"
  | transport failure => failure.text
  | handshake failure => "TLS handshake failed: " ++ failure.text
  | timeout => "i/o timeout"

/-- The failure of reading or writing behind the cause, if there is one. -/
def io? : Cause → Option IoFailure
  | transport failure => some failure
  | handshake failure => some failure
  | _ => none

end Cause

/-- A cause with the flags that tell a caller how to treat it. -/
structure Detail where
  cause : Cause
  timeout : Bool
  temporary : Bool
  deriving DecidableEq, Repr

namespace Detail

/-- Only running out of time is flagged as a timeout, and nothing as temporary. -/
def of (cause : Cause) : Detail := ⟨cause, cause == .timeout, false⟩

/-- The same, flagged as temporary or not. -/
def flagged (cause : Cause) (temporary : Bool) : Detail :=
  { of cause with temporary }

end Detail

/-- Whom a failure is about: the name looked up and the server contacted, if any. -/
structure Subject where
  name : String
  server : Option Endpoint
  deriving DecidableEq, Repr

namespace Subject

def host (name : String) : Subject := ⟨name, none⟩

def withServer (s : Subject) (server : Endpoint) : Subject := { s with server := some server }

end Subject

/-- A failed lookup. -/
structure Failure where
  subject : Subject
  detail : Detail
  deriving DecidableEq, Repr

namespace Failure

/-- A failure without server, with the flags its cause has by default. -/
def ofHost (name : String) (cause : Cause) : Failure := ⟨.host name, .of cause⟩

def name (f : Failure) : String := f.subject.name

def server (f : Failure) : Option Endpoint := f.subject.server

def cause (f : Failure) : Cause := f.detail.cause

def isTimeout (f : Failure) : Bool := f.detail.timeout

def isTemporary (f : Failure) : Bool := f.detail.temporary

/-- The name definitely does not exist. -/
def isNotFound (f : Failure) : Bool := f.cause == .notFound

/-- Neither another server nor another name can help. -/
def isFatal (f : Failure) : Bool :=
  match f.cause with
  | .unsupportedNetwork | .unsupportedProtocol | .handshake _ => true
  | _ => false

def message (f : Failure) : String :=
  let place :=
    match f.server with
    | some server => " on " ++ toString server
    | none => ""
  "lookup " ++ f.name ++ place ++ ": " ++ f.cause.text

end Failure

end HostLookup
