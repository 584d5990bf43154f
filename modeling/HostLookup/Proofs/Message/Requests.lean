import HostLookup.Proofs.Exchange.Streams
import HostLookup.Proofs.Message.Sections
import Mathlib.Data.List.Forall2

/-!
Requests as they are sent. The request for a host is short enough for a stream, where it stands
behind two octets that tell its length. It can be read back unless the host's name takes more than
255 octets, and then every message with its identity and its question is taken for a reply to it,
whatever the case of the letters in the name and whatever else the message says.
-/
set_option autoImplicit false

namespace HostLookup

namespace Label

/-- Two octets that differ at most in the case of an ASCII letter. -/
inductive Recased : UInt8 → UInt8 → Prop where
  | same (o : UInt8) : Recased o o
  | upper {o : UInt8} : 65 ≤ o → o ≤ 90 → Recased o (o + 32)
  | lower {o : UInt8} : 65 ≤ o → o ≤ 90 → Recased (o + 32) o

theorem foldOctet_of_letter {o : UInt8} (h : 65 ≤ o) (h' : o ≤ 90) :
    foldOctet (o + 32) = foldOctet o := by
  unfold foldOctet
  grind

theorem foldOctet_eq_iff {o p : UInt8} : foldOctet o = foldOctet p ↔ Recased o p := by
  constructor
  · intro h
    by_cases ho : 65 ≤ o ∧ o ≤ 90 <;> by_cases hp : 65 ≤ p ∧ p ≤ 90 <;>
      simp only [foldOctet, ho, hp, if_false] at h
    · obtain rfl := (UInt8.add_left_inj 32).mp h
      exact .same o
    · exact h ▸ .upper ho.1 ho.2
    · exact h ▸ .lower hp.1 hp.2
    · exact h ▸ .same o
  · intro h
    cases h with
    | same => rfl
    | upper h h' => exact (foldOctet_of_letter h h').symm
    | lower h h' => exact foldOctet_of_letter h h'

end Label

namespace DomainName

variable {m n : DomainName}

/-- Two names that differ at most in the case of ASCII letters. -/
def Recased (m n : DomainName) : Prop :=
  List.Forall₂ (List.Forall₂ Label.Recased) m.labels n.labels

theorem sameUpToCase_iff : m.sameUpToCase n = true ↔ m.Recased n := by
  simp only [sameUpToCase, beq_iff_eq, Recased, ← List.forall₂_eq_eq_eq, List.forall₂_map_left_iff,
    List.forall₂_map_right_iff, Label.foldOctet_eq_iff]

theorem Recased.length_wire_eq (h : m.Recased n) : m.wire.length = n.wire.length :=
  DomainName.length_wire_eq (sameUpToCase_iff.mpr h)

theorem Recased.valid (h : m.Recased n) (hn : n.Valid) : m.Valid := by
  obtain ⟨ls⟩ := m
  obtain ⟨ms⟩ := n
  replace h : List.Forall₂ (List.Forall₂ Label.Recased) ls ms := h
  induction h with
  | nil => exact List.forall_mem_nil _
  | @cons l k ls ms hl _ ih =>
    obtain ⟨⟨hne, hle⟩, hms⟩ := List.forall_mem_cons.mp hn
    have hlength : l.length = k.length := hl.length_eq
    refine List.forall_mem_cons.mpr ⟨⟨?_, hlength ▸ hle⟩, ih hms⟩
    rintro rfl
    exact hne (List.length_eq_zero_iff.mp hlength.symm)

end DomainName

namespace Message

variable {h : Header} {q : Question} {r : Request} {rest : Octets}

theorem ofOctets?_encode (h : Header) (rest : Octets) :
    ofOctets? (h.encode ++ rest) = some ⟨h.encode ++ rest, h⟩ := by
  rw [ofOctets?, Header.decode_encode]
  rfl

/-- A question that is written behind a header is read, and what stands behind it comes next. -/
theorem questions?_encode (hone : h.questions = 1) (hvalid : q.name.Valid)
    (hfits : q.name.wire.length ≤ Cursor.nameLimit) (rest : Octets) :
    ∃ c, questions? ⟨h.encode ++ (q.encode ++ rest), h⟩ = some ([q], c) ∧ c.rest = rest := by
  have hdrop : (h.encode ++ (q.encode ++ rest)).drop Header.size = q.encode ++ rest :=
    List.drop_left' h.length_encode
  have hat := Question.questionAt_of_encode hvalid hfits (at_iff.mpr ⟨rest, hdrop⟩)
  have hread := Question.read?_iff_questionAt.mpr ⟨_, hat, rfl⟩
  exact ⟨_, (questions?_of_one hone).mpr ⟨q, rfl, hread⟩, drop_behind hdrop⟩

/-- Of the messages with one question, the replies to a request are those that have its identity and
its question. -/
theorem answers_encode_iff (hname : r.name.Valid) (hlength : r.name.wire.length ≤ Cursor.nameLimit)
    (hone : h.questions = 1) (hvalid : q.name.Valid)
    (hfits : q.name.wire.length ≤ Cursor.nameLimit) :
    answers ⟨h.encode ++ (q.encode ++ rest), h⟩ r.message = true ↔
      h.isReply = true ∧ h.id = r.id ∧ q.name.Recased r.name ∧ q.type = r.type.code ∧
        q.cls = Question.internet := by
  obtain ⟨c, hc, _⟩ := questions?_encode hone hvalid hfits rest
  obtain ⟨d, hd, _⟩ := @questions?_encode r.header r.question rfl hname hlength []
  rw [List.append_nil] at hd
  have hsame : Question.sameAll [q] [r.question] = true ↔
      q.name.Recased r.name ∧ q.type = r.type.code ∧ q.cls = Question.internet := by
    rw [Question.sameAll_singleton_iff, DomainName.sameUpToCase_iff]
    rfl
  rw [answers_eq_true_iff]
  constructor
  · rintro ⟨hreply, hid, _, qs, _, rs, _, hqs, hrs, hall⟩
    cases hc.symm.trans hqs
    cases hd.symm.trans hrs
    exact ⟨hreply, hid, hsame.mp hall⟩
  · rintro ⟨hreply, hid, hall⟩
    exact ⟨hreply, hid, hone, [q], c, [r.question], d, hc, hd, hsame.mpr hall⟩

end Message

namespace Request

variable {r : Request} {host text : String} {name : DomainName}

/-- A request is short enough for a stream: there it stands behind its length, which takes two
octets, and it is found again whatever comes behind it. -/
structure Framed (r : Request) : Prop where
  length_le : r.octets.length ≤ 272
  prefixed : ∃ high low : UInt8, framed r.octets = high :: low :: r.octets ∧
    high.toNat * 256 + low.toNat = r.octets.length
  found : ∀ rest, Exchange.takeFrame (framed r.octets ++ rest) = some (r.octets, rest)

/-- A request can be read. In it stand its identity, the flag that recursion is desired, and one
question for internet records, and nothing else. A message with one question about the name, in
letters of any case, is a reply if it says so and has the request's identity, type and class. -/
structure Legible (r : Request) : Prop where
  decoded : ∃ m c, Message.ofOctets? r.octets = some m ∧ m.header = ⟨r.id, 1, 0, 1, 0, 0, 0⟩ ∧
    m.questions? = some ([⟨r.name, r.type.code, 1⟩], c) ∧ c.rest = []
  answered : ∀ (h : Header) (q : Question) (rest : Octets), h.questions = 1 →
    q.name.Recased r.name → ∃ m, Message.ofOctets? (h.encode ++ (q.encode ++ rest)) = some m ∧
      (m.answers r.message = true ↔
        h.isReply = true ∧ h.id = r.id ∧ q.type = r.type.code ∧ q.cls = Question.internet)

theorem length_octets (r : Request) : r.octets.length = r.name.wire.length + 16 := by
  simp only [octets, question, Question.encode, List.length_append, Header.length_encode,
    length_wordOctets, Header.size]
  omega

theorem framed_of_length_le (h : r.name.wire.length ≤ 256) : r.Framed := by
  have hle : r.octets.length ≤ 272 := by
    rw [length_octets]
    omega
  have hcount : (UInt16.ofNat r.octets.length).toNat = r.octets.length :=
    UInt16.toNat_ofNat_of_lt' (Nat.lt_of_le_of_lt hle (by decide))
  refine ⟨hle, ⟨_, _, rfl, ?_⟩, Exchange.takeFrame_framed (by omega)⟩
  rw [← toNat_joinOctets, joinOctets_splitWord, hcount]

theorem legible_iff (hvalid : r.name.Valid) :
    r.Legible ↔ r.name.wire.length ≤ Cursor.nameLimit := by
  constructor
  · rintro ⟨⟨m, c, hm, _, hquestions, _⟩, _⟩
    rw [ofOctets?_octets] at hm
    cases hm
    obtain ⟨q, _, hread⟩ := (Message.questions?_of_one rfl).mp hquestions
    exact ((read?_question hvalid).mp ⟨c, hread⟩).1
  · intro hlength
    obtain ⟨c, hc, hrest⟩ := @Message.questions?_encode r.header r.question rfl hvalid hlength []
    rw [List.append_nil] at hc
    refine ⟨⟨r.message, c, ofOctets?_octets r, rfl, hc, hrest⟩, ?_⟩
    intro h q rest hone hq
    have hfits : q.name.wire.length ≤ Cursor.nameLimit := hq.length_wire_eq ▸ hlength
    refine ⟨_, Message.ofOctets?_encode h _, ?_⟩
    rw [Message.answers_encode_iff hvalid hlength hone (hq.valid hvalid) hfits]
    simp only [hq, true_and]

/-- The request for any host can be sent over a stream, and it can be read unless the host's name is
too long. -/
theorem framed_and_legible_iff (h : DomainName.ofHost? host = some (text, name)) (id : UInt16)
    (type : RecordType) : (Request.mk id name type).Framed ∧
      ((Request.mk id name type).Legible ↔ name.wire.length ≤ Cursor.nameLimit) :=
  ⟨framed_of_length_le (DomainName.length_wire_of_ofHost? h),
    legible_iff (DomainName.valid_of_ofHost? h)⟩

/-- The letters of a host with three labels of 63 letters, one of `n` and one of a single letter. -/
def longHost (n : Nat) : List Char :=
  List.flatten (.replicate 3 (.replicate 63 'a' ++ ['.'])) ++ .replicate n 'a' ++ ['.', 'a']

/-- The name of the host. -/
def longName (n : Nat) : DomainName := ⟨.replicate 3 (.replicate 63 97) ++ [.replicate n 97, [97]]⟩

/-- With one letter more, the name of a host is too long. -/
theorem framed_and_legible_iff_longest :
    (DomainName.ofHost? (.ofList (longHost 59))).map Prod.snd = some (longName 59) ∧
      (Request.mk 7 (longName 59) .aaaa).Framed ∧ (Request.mk 7 (longName 59) .aaaa).Legible ∧
      (DomainName.ofHost? (.ofList (longHost 60))).map Prod.snd = some (longName 60) ∧
      (Request.mk 7 (longName 60) .aaaa).Framed ∧ ¬ (Request.mk 7 (longName 60) .aaaa).Legible := by
  have hlong : DomainName.ofHost? (.ofList (longHost 59)) = some (_, longName 59) :=
    DomainName.ofHost?_ofList (by decide +kernel) (by decide +kernel) (by decide +kernel)
  have hlonger : DomainName.ofHost? (.ofList (longHost 60)) = some (_, longName 60) :=
    DomainName.ofHost?_ofList (by decide +kernel) (by decide +kernel) (by decide +kernel)
  have hlength : (longName 59).wire.length = Cursor.nameLimit := by decide +kernel
  have hlength' : Cursor.nameLimit < (longName 60).wire.length := by decide +kernel
  obtain ⟨hframed, hlegible⟩ := framed_and_legible_iff hlong 7 .aaaa
  obtain ⟨hframed', hlegible'⟩ := framed_and_legible_iff hlonger 7 .aaaa
  refine ⟨congrArg (Option.map Prod.snd) hlong, hframed, hlegible.mpr (Nat.le_of_eq hlength),
    congrArg (Option.map Prod.snd) hlonger, hframed', ?_⟩
  exact fun hread => Nat.not_le_of_lt hlength' (hlegible'.mp hread)

end Request

end HostLookup
