import HostLookup.Config.Reader
import HostLookup.Proofs.Text.Cutting

/-!
Texts as octets. In UTF-8 the octet of a line feed stands for nothing but a line feed. Hence the
octets of a text fall into lines just as the text does, and each line is UTF-8 again.
-/
set_option autoImplicit false

namespace HostLookup.Text

open Config (lineFeed)

/-- The octets of a text in UTF-8. -/
def encode (cs : List Char) : Octets := cs.flatMap String.utf8EncodeChar

@[simp] theorem encode_nil : encode [] = [] := rfl

theorem encode_cons (c : Char) (cs : List Char) :
    encode (c :: cs) = String.utf8EncodeChar c ++ encode cs := rfl

theorem encode_toList (s : String) : encode s.toList = s.toUTF8.data.toList := by
  rw [← String.ofList_toList (s := s), String.toUTF8_eq_toByteArray, String.toByteArray_ofList,
    String.toList_ofList]
  exact List.toList_data_toByteArray.symm

theorem fromUTF8?_encode (cs : List Char) :
    String.fromUTF8? (ByteArray.mk (encode cs).toArray) = some (String.ofList cs) := by
  have harray : ByteArray.mk (encode cs).toArray = cs.utf8Encode :=
    ByteArray.ext List.data_toByteArray.symm
  have hvalid : (ByteArray.mk (encode cs).toArray).IsValidUTF8 := .intro cs harray
  rw [String.fromUTF8?, dif_pos hvalid]
  apply congrArg some
  apply String.toByteArray_inj.mp
  rw [String.toByteArray_ofList]
  exact harray

/-- Octets of other characters are those of other ASCII characters, or beyond ASCII. -/
theorem ne_lineFeed_of_mem {c : Char} (h : c ≠ '\n') {o : UInt8}
    (ho : o ∈ String.utf8EncodeChar c) : (o == lineFeed) = false := by
  have hc : c.val.toNat ≠ 10 := fun hn => h (Char.toNat_inj.mp hn)
  suffices hne : o.toNat ≠ 10 by
    rw [beq_eq_false_iff_ne]
    rintro rfl
    exact hne rfl
  simp only [String.utf8EncodeChar] at ho
  split at ho
  · rw [List.mem_singleton.mp ho, UInt8.toNat_ofNat']
    omega
  · split at ho
    · simp only [List.mem_cons, List.not_mem_nil, or_false] at ho
      rcases ho with rfl | rfl <;> rw [UInt8.toNat_ofNat'] <;> omega
    · split at ho
      · simp only [List.mem_cons, List.not_mem_nil, or_false] at ho
        rcases ho with rfl | rfl | rfl <;> rw [UInt8.toNat_ofNat'] <;> omega
      · simp only [List.mem_cons, List.not_mem_nil, or_false] at ho
        rcases ho with rfl | rfl | rfl | rfl <;> rw [UInt8.toNat_ofNat'] <;> omega

/-- The lines of a text. -/
def lines (cs : List Char) : List (List Char) := split (· == '\n') cs

theorem split_encode (cs : List Char) :
    split (· == lineFeed) (encode cs) = (lines cs).map encode := by
  induction cs with
  | nil => rfl
  | cons c cs ih =>
    by_cases hc : c = '\n'
    · subst hc
      rw [lines, split_cons_cut rfl]
      exact (split_cons_cut rfl _).trans (congrArg ([] :: ·) ih)
    · obtain ⟨line, rest, hcs⟩ := List.exists_cons_of_ne_nil (split_ne_nil (· == '\n') cs)
      rw [lines, hcs] at ih
      have hleft : ∀ d ∈ [c], (d == '\n') = false := by simpa using hc
      have hline : lines (c :: cs) = (c :: line) :: rest := split_append_uncut hleft hcs
      rw [encode_cons, split_append_uncut (fun o ho => ne_lineFeed_of_mem hc ho) ih, hline]
      rfl

end HostLookup.Text
