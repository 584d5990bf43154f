import HostLookup.Address.Basic
import HostLookup.Text.Numeral

/-!
The written form of addresses and endpoints. In IPv6 the longest run of two or more groups of
zeros, the first one if several are as long, is written `::`, and only addresses that stand for an
IPv4 address end in a dotted part.
-/
set_option autoImplicit false

namespace HostLookup

open Text

namespace V4

def chars (v : V4) : List Char :=
  ['.'].intercalate (v.octets.map fun o => decimal o.toNat)

end V4

namespace V6

/-- The number of groups of zeros at the front. -/
def leadingZeros (gs : List UInt16) : Nat := (gs.takeWhile (· == 0)).length

/-- Where the first of the longest runs of zeros starts, and its length. -/
def longestZeros : List UInt16 → Nat × Nat
  | [] => (0, 0)
  | g :: gs =>
    let later := longestZeros gs
    let here := leadingZeros (g :: gs)
    if later.2 ≤ here then (0, here) else (later.1 + 1, later.2)

def groupChars (gs : List UInt16) : List Char :=
  [':'].intercalate (gs.map fun g => hexadecimal g.toNat)

def chars (v : V6) : List Char :=
  match v.toV4? with
  | some a => "::ffff:".toList ++ a.chars
  | none =>
    let run := longestZeros v.groups
    if run.2 < 2 then groupChars v.groups
    else groupChars (v.groups.take run.1) ++ "::".toList ++
      groupChars (v.groups.drop (run.1 + run.2))

end V6

namespace Address

def chars : Address → List Char
  | v4 a => a.chars
  | v6 a => a.chars

instance : ToString Address where
  toString a := String.ofList a.chars

end Address

namespace Endpoint

def chars : Endpoint → List Char
  | v4 a port => a.chars ++ ':' :: decimal port.toNat
  | v6 a port zone =>
    '[' :: a.chars ++ (if zone = 0 then [] else '%' :: decimal zone.toNat) ++
      "]:".toList ++ decimal port.toNat

instance : ToString Endpoint where
  toString e := String.ofList e.chars

end Endpoint

end HostLookup
