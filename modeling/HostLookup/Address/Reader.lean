import HostLookup.Address.Basic
import HostLookup.Text.Numeral
import HostLookup.Text.Split

/-!
Reading addresses and endpoints. IPv4 has four decimal octets without leading zeros. IPv6 has
groups of up to four hexadecimal digits; `::` stands once for at least one group of zeros, and the
last two groups may be written as an IPv4 address. An endpoint is `v4:port`, `[v6]:port` or
`[v6%zone]:port`.
-/
set_option autoImplicit false

namespace HostLookup

open Text

namespace V4

/-- An octet: a decimal numeral below 256, without leading zeros. -/
def octet? : List Char → Option UInt8
  | '0' :: _ :: _ => none
  | cs => (numeral 10 256 cs).map UInt8.ofNat

def ofChars? (cs : List Char) : Option V4 :=
  match (split (· == '.') cs).mapM octet? with
  | some os => ofOctets? os
  | none => none

end V4

namespace V6

/-- A group: at most four hexadecimal digits. -/
def group? (cs : List Char) : Option UInt16 :=
  if cs.length ≤ 4 then (numeral 16 65536 cs).map UInt16.ofNat else none

/-- The two groups of an address of the other family. -/
def quad? (cs : List Char) : Option (List UInt16) :=
  (V4.ofChars? cs).map fun v => [joinOctets v.a v.b, joinOctets v.c v.d]

/-- Groups of which the last two may be written as an IPv4 address. -/
def groupsOfPieces : List (List Char) → Option (List UInt16)
  | [] => some []
  | [piece] => (group? piece).map ([·]) <|> quad? piece
  | piece :: pieces => do
    let g ← group? piece
    let gs ← groupsOfPieces pieces
    return g :: gs

/-- The groups before `::`; there may be none. -/
def front? (cs : List Char) : Option (List UInt16) :=
  if cs.isEmpty then some [] else (split (· == ':') cs).mapM group?

/-- The groups after `::`, or all groups; there may be none. -/
def back? (cs : List Char) : Option (List UInt16) :=
  if cs.isEmpty then some [] else groupsOfPieces (split (· == ':') cs)

/-- The parts before and after the first `::`. -/
def splitGap : List Char → Option (List Char × List Char)
  | [] => none
  | [_] => none
  | c :: d :: cs =>
    if c = ':' ∧ d = ':' then some ([], cs)
    else (splitGap (d :: cs)).map fun parts => (c :: parts.1, parts.2)

/-- Fills the gap between two lists of groups with at least one group of zeros. -/
def fill? (front back : List UInt16) : Option V6 :=
  if front.length + back.length < 8 then
    ofGroups? (front ++ List.replicate (8 - (front.length + back.length)) 0 ++ back)
  else none

def ofChars? (cs : List Char) : Option V6 :=
  match splitGap cs with
  | none => (back? cs).bind ofGroups?
  | some (front, back) => do
    let gs ← front? front
    let hs ← back? back
    fill? gs hs

end V6

namespace Address

def ofChars? (cs : List Char) : Option Address :=
  (V4.ofChars? cs).map .v4 <|> (V6.ofChars? cs).map .v6

def ofString? (s : String) : Option Address := ofChars? s.toList

end Address

namespace Endpoint

/-- A port: a decimal numeral of sixteen bits. -/
def port? (cs : List Char) : Option UInt16 := (numeral 10 65536 cs).map UInt16.ofNat

/-- A zone: a decimal numeral of thirty-two bits. -/
def zone? (cs : List Char) : Option UInt32 := (numeral 10 4294967296 cs).map UInt32.ofNat

/-- An IPv6 address with a zone, which is zero unless given. -/
def zoned? (cs : List Char) : Option (V6 × UInt32) :=
  match splitFirst (· == '%') cs with
  | (a, none) => (V6.ofChars? a).map fun v => (v, 0)
  | (a, some z) => do
    let v ← V6.ofChars? a
    let zone ← zone? z
    return (v, zone)

def ofChars? : List Char → Option Endpoint
  | '[' :: cs =>
    match splitFirst (· == ']') cs with
    | (inner, some (':' :: p)) => do
      let (v, zone) ← zoned? inner
      let port ← port? p
      return .v6 v port zone
    | _ => none
  | cs =>
    match splitFirst (· == ':') cs with
    | (a, some p) => do
      let v ← V4.ofChars? a
      let port ← port? p
      return .v4 v port
    | (_, none) => none

def ofString? (s : String) : Option Endpoint := ofChars? s.toList

end Endpoint

end HostLookup
