import HostLookup.Proofs.Text.Encoding

/-!
Reading a configuration line by line. Where the last line ends does not matter, since an empty line
says nothing, and a text that is delivered whole is read as the lines it falls into.
-/
set_option autoImplicit false

namespace HostLookup.Config

open Text

theorem readOctets_encode (c : Config) (line : List Char) :
    c.readOctets (encode line) = c.readLine line := by
  rw [readOctets, fromUTF8?_encode]
  exact congrArg c.readLine String.toList_ofList

theorem readRest_eq (c : Config) (pending : Octets) :
    c.readRest pending = c.readOctets pending := by
  cases pending with
  | nil => exact (readOctets_encode c []).symm
  | cons o os => rfl

theorem Reading.andThen_done (r : Reading) : r.andThen done = r := by
  cases r with
  | mk config fault => cases fault <;> rfl

theorem Reading.andThen_andThen (r : Reading) (f g : Config → Reading) :
    (r.andThen f).andThen g = r.andThen fun c => (f c).andThen g := by
  cases r with
  | mk config fault => cases fault <;> rfl

theorem Reading.andThen_of_fault {r : Reading} (h : r.fault ≠ none) (next : Config → Reading) :
    r.andThen next = r := by
  cases hr : r.fault with
  | none => exact absurd hr h
  | some fault => rw [andThen, hr]

theorem Reading.andThen_of_done {r : Reading} (h : r.fault = none) (next : Config → Reading) :
    r.andThen next = next r.config := by
  rw [andThen, h]

theorem Reading.fault_andThen_eq_none_iff {r : Reading} {next : Config → Reading} :
    (r.andThen next).fault = none ↔ r.fault = none ∧ (next r.config).fault = none := by
  cases r with
  | mk config fault => cases fault <;> simp [andThen]

theorem readLines_append (c : Config) (ls ms : List Octets) :
    c.readLines (ls ++ ms) = (c.readLines ls).andThen fun c => c.readLines ms := by
  induction ls generalizing c with
  | nil => rfl
  | cons l ls ih =>
    rw [List.cons_append, readLines, readLines, Reading.andThen_andThen]
    exact congrArg _ (funext fun c => ih c)

/-- A text that is delivered whole is read line by line; its end is read as a line, too. -/
theorem read_eq_readLines (c : Config) (os : Octets) :
    c.read os = c.readLines (split (· == lineFeed) os) := by
  cases os with
  | nil =>
    rw [split_nil, readLines, ← encode_nil, readOctets_encode]
    rfl
  | cons o os =>
    have hpieces := split_ne_nil (· == lineFeed) (o :: os)
    change ((c.readLines (split (· == lineFeed) (o :: os)).dropLast).andThen fun c =>
      c.readRest ((split (· == lineFeed) (o :: os)).getLast?.getD [])) = _
    conv => rhs; rw [← List.dropLast_concat_getLast hpieces, readLines_append]
    refine congrArg _ (funext fun d => ?_)
    rw [List.getLast?_eq_some_getLast hpieces, readRest_eq, readLines]
    exact (Reading.andThen_done _).symm

/-- The octets of complete lines. -/
def ended (ls : List Octets) : Octets := ls.flatMap (· ++ [lineFeed])

/-- No line feed is among the octets. -/
def Unended (os : Octets) : Prop := ∀ o ∈ os, (o == lineFeed) = false

theorem split_ended_append {ls : List Octets} (h : ∀ l ∈ ls, Unended l)
    (rest : Octets) : split (· == lineFeed) (ended ls ++ rest) =
      ls ++ split (· == lineFeed) rest := by
  induction ls with
  | nil => rfl
  | cons l ls ih =>
    obtain ⟨hl, hls⟩ := List.forall_mem_cons.mp h
    have hended : ended (l :: ls) ++ rest = l ++ lineFeed :: (ended ls ++ rest) := by
      simp [ended]
    rw [hended, split_append_cut (by rfl), split_eq_singleton hl, ih hls]
    rfl

/-- A text of complete lines is read as these lines. -/
theorem read_ended {ls : List Octets} (h : ∀ l ∈ ls, Unended l) (c : Config) :
    c.read (ended ls) = c.readLines ls := by
  have hsplit := split_ended_append h []
  rw [List.append_nil, split_nil] at hsplit
  rw [read_eq_readLines, hsplit, readLines_append]
  exact Reading.andThen_done _

theorem read_encode (c : Config) (text : List Char) :
    c.read (encode text) = c.readLines ((lines text).map encode) := by
  rw [read_eq_readLines, split_encode]

theorem readLines_encode_cons (c : Config) (line : List Char) (rest : List (List Char)) :
    c.readLines ((line :: rest).map encode) =
      (c.readLine line).andThen fun c => c.readLines (rest.map encode) := by
  rw [List.map_cons, readLines, readOctets_encode]

end HostLookup.Config
