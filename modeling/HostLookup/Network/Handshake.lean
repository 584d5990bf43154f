import HostLookup.Address.Printer
import HostLookup.Network.Connection

/-!
The other side of handshakes. A server either shows a certificate, which holds for the addresses
`127.0.0.1` and `::1` and has to be trusted, or does something else in place of a handshake.
-/
set_option autoImplicit false

namespace HostLookup

/-- What a server does in a handshake. -/
inductive HandshakeSide where
  /-- Shows a certificate from a trusted authority. -/
  | trusted
  /-- Shows a certificate from an unknown authority. -/
  | untrusted
  /-- Closes the connection. -/
  | closes
  /-- Its answer cannot be read. -/
  | fails (failure : IoFailure)
  /-- Never answers. -/
  | silent
  /-- Sends octets and then nothing more. -/
  | raw (os : Octets)
  deriving DecidableEq, Repr

namespace HandshakeSide

/-- The addresses that certificates are valid for. -/
def certified (server : Address) : Bool :=
  server == .v4 .localhost || server == .v6 ⟨0, 0, 0, 0, 0, 0, 0, 1⟩

def invalid (text : String) : HandshakeEnd := .failed ⟨.invalidData, text⟩

def notCertified (server : Address) : String :=
  "invalid peer certificate: certificate not valid for name \"" ++ toString server ++
    "\"; certificate is only valid for IpAddress(127.0.0.1) or IpAddress(0::1)"

/-- The alerts with which a server refuses a handshake. -/
def alertName? (code : UInt8) : Option String :=
  [(10, "UnexpectedMessage"), (20, "BadRecordMac"), (22, "RecordOverflow"),
    (40, "HandshakeFailure"), (42, "BadCertificate"), (43, "UnsupportedCertificate"),
    (44, "CertificateRevoked"), (45, "CertificateExpired"), (46, "CertificateUnknown"),
    (47, "IllegalParameter"), (48, "UnknownCA"), (49, "AccessDenied"), (50, "DecodeError"),
    (51, "DecryptError"), (70, "ProtocolVersion"), (71, "InsufficientSecurity"),
    (80, "InternalError"), (86, "InappropriateFallback"), (109, "MissingExtension"),
    (110, "UnsupportedExtension"), (112, "UnrecognisedName"), (115, "UnknownPSKIdentity"),
    (116, "CertificateRequired"), (120, "NoApplicationProtocol")].lookup code

/-- The types of records in encrypted connections. -/
def isContentType (o : UInt8) : Bool := 20 ≤ o && o ≤ 24

/-- What octets in place of a handshake lead to: a record of an unknown type is refused, an alert is
reported, and the rest of anything else is waited for. -/
def ofRaw : Octets → HandshakeEnd
  | 0x15 :: 3 :: _ :: 0 :: 2 :: 2 :: code :: _ =>
    match alertName? code with
    | some name => invalid ("received fatal alert: " ++ name)
    | none => .never
  | o :: _ => if isContentType o then .never
    else invalid "received corrupt message of type InvalidContentType"
  | [] => .never

/-- How a handshake with a server at an address ends. -/
def outcome (side : HandshakeSide) (server : Address) : HandshakeEnd :=
  match side with
  | trusted => if certified server then .completed else invalid (notCertified server)
  | untrusted => invalid "invalid peer certificate: UnknownIssuer"
  | closes => .failed ⟨.unexpectedEof, "tls handshake eof"⟩
  | fails failure => .failed failure
  | silent => .never
  | raw os => ofRaw os

end HandshakeSide

end HostLookup
