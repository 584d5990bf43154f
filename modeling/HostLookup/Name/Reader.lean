import HostLookup.Name.Basic
import HostLookup.Text.Numeral

/-!
Domain names as text. Labels are separated by dots, and a dot may end the name. A backslash makes
the next character part of the label, or together with three decimal digits stands for an octet.
A label has at most sixty-three octets; a further octet is taken while the wire form, so far and
without the root, has less than 254 octets.
-/
set_option autoImplicit false

namespace HostLookup

namespace DomainName

/-- The pieces a name's text is made of. -/
inductive Symbol where
  /-- An unescaped dot. -/
  | separator
  /-- One octet of a label. -/
  | octet (value : UInt8)
  /-- An escaped opening bracket, which is an octet anywhere but at the start of a label. -/
  | bracket
  deriving DecidableEq, Repr

/-- Printable characters of ASCII, the space included. -/
def isPrintable (c : Char) : Bool := 0x20 ≤ c.toNat && c.toNat ≤ 0x7e

/-- The pieces of a text, or nothing if a character or an escape is not allowed. -/
def symbols : List Char → Option (List Symbol)
  | [] => some []
  | ['\\'] => none
  | '\\' :: c :: cs =>
    if c.isDigit then
      match cs with
      | d :: e :: rest => do
        let n ← Text.numeral 10 256 [c, d, e]
        let ss ← symbols rest
        return .octet (UInt8.ofNat n) :: ss
      | _ => none
    else if isPrintable c then
      (symbols cs).map ((if c = '[' then .bracket else .octet (UInt8.ofNat c.toNat)) :: ·)
    else none
  | '.' :: cs => (symbols cs).map (.separator :: ·)
  | c :: cs =>
    if isPrintable c then (symbols cs).map (.octet (UInt8.ofNat c.toNat) :: ·) else none

/-- A further octet fits behind a label in a wire form of which `used` octets are taken. -/
def fits (used : Nat) (label : Label) : Bool :=
  decide (used < 254) && decide (label.length < Label.limit)

/-- The octets taken with one more: a label's first octet brings the label's length along. -/
def usedWith (used : Nat) (label : Label) : Nat := if label.isEmpty then used + 2 else used + 1

/-- The labels that pieces make, behind a label begun and a wire form of which `used` octets are
taken. -/
def assemble (used : Nat) (label : Label) : List Symbol → Option (List Label)
  | [] => some (if label.isEmpty then [] else [label])
  | .separator :: ss =>
    if label.isEmpty then none else (assemble used [] ss).map (label :: ·)
  | .octet o :: ss =>
    if fits used label then assemble (usedWith used label) (label ++ [o]) ss else none
  | .bracket :: ss =>
    if !label.isEmpty && fits used label then
      assemble (usedWith used label) (label ++ [91]) ss
    else none

/-- A lone dot is the root; otherwise there has to be a label. -/
def ofSymbols : List Symbol → Option DomainName
  | [] => none
  | [.separator] => some root
  | ss => (assemble 0 [] ss).map .mk

def ofChars? (cs : List Char) : Option DomainName := (symbols cs).bind ofSymbols

def ofString? (s : String) : Option DomainName := ofChars? s.toList

/-- A name that ends in a dot needs none at its end. -/
def endsInDot (s : String) : Bool := s.toList.getLast? == some '.'

/-- The text of a host's name with a dot at its end, and the name, which is not the root. -/
def ofHost? (host : String) : Option (String × DomainName) :=
  if host = "" ∨ host = "." then none
  else
    let full := if endsInDot host then host else host.push '.'
    (ofString? full).map fun n => (full, n)

end DomainName

end HostLookup
