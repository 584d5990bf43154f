import HostLookup.Octets

/-!
Domain names: labels of one to sixty-three octets, the most specific one first. The wire form writes
each label behind its length and ends with the root, a zero.
-/
set_option autoImplicit false

namespace HostLookup

/-- The octets between two dots. -/
abbrev Label := Octets

/-- A domain name, without the root label that ends it. -/
structure DomainName where
  labels : List Label
  deriving DecidableEq, Repr

namespace Label

/-- The most octets a label can have. -/
def limit : Nat := 63

/-- A label and its length. -/
def wire (l : Label) : Octets := UInt8.ofNat l.length :: l

/-- An octet with upper-case ASCII letters turned into lower case. -/
def foldOctet (o : UInt8) : UInt8 := if 65 ≤ o ∧ o ≤ 90 then o + 32 else o

end Label

namespace DomainName

def root : DomainName := ⟨[]⟩

def wire (n : DomainName) : Octets := n.labels.flatMap Label.wire ++ [0]

/-- Names are equal label by label, up to the case of ASCII letters. -/
def sameUpToCase (m n : DomainName) : Bool :=
  m.labels.map (List.map Label.foldOctet) == n.labels.map (List.map Label.foldOctet)

/-- Every label has at least one octet and at most sixty-three. -/
def Valid (n : DomainName) : Prop := ∀ l ∈ n.labels, l ≠ [] ∧ l.length ≤ Label.limit

instance (n : DomainName) : Decidable n.Valid :=
  inferInstanceAs (Decidable (∀ l ∈ n.labels, _))

@[simp] theorem wire_root : root.wire = [0] := rfl

theorem wire_cons (l : Label) (ls : List Label) :
    wire ⟨l :: ls⟩ = l.wire ++ wire ⟨ls⟩ := by
  simp [wire]

theorem length_wire_cons (l : Label) (ls : List Label) :
    (wire ⟨l :: ls⟩).length = l.length + 1 + (wire ⟨ls⟩).length := by
  rw [wire_cons, List.length_append]
  rfl

end DomainName

end HostLookup
