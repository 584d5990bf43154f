/-!
Strings of octets, and sixteen-bit words as two octets with the higher one first.
-/
set_option autoImplicit false

namespace HostLookup

abbrev Octets := List UInt8

/-- The word made of two octets, the higher one first. -/
def joinOctets (high low : UInt8) : UInt16 := UInt16.ofNat (high.toNat * 256 + low.toNat)

/-- The two octets of a word, the higher one first. -/
def splitWord (w : UInt16) : UInt8 × UInt8 :=
  (UInt8.ofNat (w.toNat / 256), UInt8.ofNat (w.toNat % 256))

/-- A word as it is written into a message. -/
def wordOctets (w : UInt16) : Octets := [(splitWord w).1, (splitWord w).2]

/-- The first word of a string of octets, and what follows it. -/
def takeWord : Octets → Option (UInt16 × Octets)
  | high :: low :: rest => some (joinOctets high low, rest)
  | _ => none

theorem toNat_joinOctets (high low : UInt8) :
    (joinOctets high low).toNat = high.toNat * 256 + low.toNat := by
  have h := high.toNat_lt
  have l := low.toNat_lt
  rw [joinOctets, UInt16.toNat_ofNat_of_lt']
  simp only [UInt16.size]
  omega

theorem splitWord_joinOctets (high low : UInt8) :
    splitWord (joinOctets high low) = (high, low) := by
  have h := high.toNat_lt
  have l := low.toNat_lt
  refine Prod.ext (UInt8.toNat_inj.1 ?_) (UInt8.toNat_inj.1 ?_) <;>
    simp only [splitWord, toNat_joinOctets] <;> rw [UInt8.toNat_ofNat'] <;> omega

theorem joinOctets_splitWord (w : UInt16) :
    joinOctets (splitWord w).1 (splitWord w).2 = w := by
  have h := w.toNat_lt
  apply UInt16.toNat_inj.1
  simp only [toNat_joinOctets, splitWord, UInt8.toNat_ofNat']
  omega

@[simp] theorem takeWord_wordOctets (w : UInt16) (rest : Octets) :
    takeWord (wordOctets w ++ rest) = some (w, rest) := by
  simp [wordOctets, takeWord, joinOctets_splitWord]

end HostLookup
