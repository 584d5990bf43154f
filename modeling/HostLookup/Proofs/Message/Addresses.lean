import HostLookup.Proofs.Message.Sections
import HostLookup.Resolver.Servers
import Mathlib.Data.List.Forall2

/-!
The addresses in a reply. They are those of the records of an address type in its answer section, one
for each of them and in their order, however the names in the message are written. Records of other
types, and what stands behind the section, bring none.
-/
set_option autoImplicit false

namespace HostLookup

theorem V4.ofOctets?_eq_some_iff {os : Octets} {a : V4} : ofOctets? os = some a ↔ os = a.octets := by
  constructor
  · intro h
    unfold ofOctets? at h
    split at h
    · cases h
      rfl
    · cases h
  · rintro rfl
    exact ofOctets?_octets a

theorem V6.ofOctets?_eq_some_iff {os : Octets} {a : V6} : ofOctets? os = some a ↔ os = a.octets := by
  constructor
  · intro h
    unfold ofOctets? at h
    split at h
    · cases h
      simp [octets, groups, splitWord_joinOctets]
    · cases h
  · rintro rfl
    exact ofOctets?_octets a

theorem V4.length_octets (a : V4) : a.octets.length = 4 := rfl

theorem V6.length_octets (a : V6) : a.octets.length = 16 := rfl

theorem V4.exists_octets {os : Octets} (h : os.length = 4) : ∃ a : V4, os = a.octets := by
  match os, h with
  | [a, b, c, d], _ => exact ⟨⟨a, b, c, d⟩, rfl⟩

theorem V6.exists_octets {os : Octets} (h : os.length = 16) : ∃ a : V6, os = a.octets := by
  match os, h with
  | [a0, b0, a1, b1, a2, b2, a3, b3, a4, b4, a5, b5, a6, b6, a7, b7], _ =>
    exact ⟨_, ofOctets?_eq_some_iff.mp rfl⟩

namespace Record

/-- A record of an address type whose data are the octets of an address. -/
inductive Holds (r : Record) : Address → Prop where
  | v4 {a : V4} : r.type = RecordType.a.code → r.data = a.octets → Holds r (.v4 a)
  | v6 {a : V6} : r.type = RecordType.aaaa.code → r.data = a.octets → Holds r (.v6 a)

/-- A record of an address type. -/
def IsAddress (r : Record) : Prop := r.type = RecordType.a.code ∨ r.type = RecordType.aaaa.code

/-- A record with as many octets of data as its type asks for. -/
def Sound (r : Record) : Prop :=
  (r.type = RecordType.a.code → r.data.length = 4) ∧
    (r.type = RecordType.aaaa.code → r.data.length = 16)

instance (r : Record) : Decidable r.IsAddress := inferInstanceAs (Decidable (_ ∨ _))

instance (r : Record) : Decidable r.Sound := inferInstanceAs (Decidable (_ ∧ _))

variable {r : Record} {rs : List Record} {as : List Address}

theorem address?_eq_some_iff {a : Address} : r.address? = some a ↔ r.Holds a := by
  unfold address?
  constructor
  · intro h
    split at h
    · obtain ⟨b, hb, rfl⟩ := Option.map_eq_some_iff.mp h
      exact .v4 (by assumption) (V4.ofOctets?_eq_some_iff.mp hb)
    · split at h
      · obtain ⟨b, hb, rfl⟩ := Option.map_eq_some_iff.mp h
        exact .v6 (by assumption) (V6.ofOctets?_eq_some_iff.mp hb)
      · cases h
  · intro h
    cases h with
    | v4 htype hdata =>
      rw [if_pos htype, hdata]
      rfl
    | @v6 a htype hdata =>
      have hne : r.type ≠ RecordType.a.code := by
        rw [htype]
        decide
      rw [if_neg hne, if_pos htype, hdata, V6.ofOctets?_octets]
      rfl

/-- The records that hold an address are the sound ones of an address type. -/
theorem exists_holds_iff : (∃ a, r.Holds a) ↔ r.IsAddress ∧ r.Sound := by
  constructor
  · rintro ⟨a, ha⟩
    cases ha with
    | @v4 a htype hdata =>
      refine ⟨.inl htype, fun _ => hdata ▸ a.length_octets, ?_⟩
      intro hother
      rw [htype] at hother
      exact absurd hother (by decide)
    | @v6 a htype hdata =>
      refine ⟨.inr htype, ?_, fun _ => hdata ▸ a.length_octets⟩
      intro hother
      rw [htype] at hother
      exact absurd hother (by decide)
  · rintro ⟨htype | htype, hv4, hv6⟩
    · obtain ⟨a, ha⟩ := V4.exists_octets (hv4 htype)
      exact ⟨.v4 a, .v4 htype ha⟩
    · obtain ⟨a, ha⟩ := V6.exists_octets (hv6 htype)
      exact ⟨.v6 a, .v6 htype ha⟩

theorem address?_eq_none_iff : r.address? = none ↔ ∀ a, ¬ r.Holds a := by
  rw [Option.eq_none_iff_forall_ne_some]
  exact forall_congr' fun a => address?_eq_some_iff.not

/-- Of sound records, those of an address type hold one address each. -/
theorem forall₂_holds_iff (h : ∀ r ∈ rs, r.Sound) :
    List.Forall₂ Holds (rs.filter (·.IsAddress)) as ↔ as = rs.filterMap address? := by
  induction rs generalizing as with
  | nil => exact List.forall₂_nil_left_iff
  | cons r rs ih =>
    obtain ⟨hr, hrs⟩ := List.forall_mem_cons.mp h
    by_cases haddress : r.IsAddress
    · obtain ⟨a, ha⟩ := exists_holds_iff.mpr ⟨haddress, hr⟩
      have hfound := address?_eq_some_iff.mpr ha
      have hkept : (r :: rs).filter (·.IsAddress) = r :: rs.filter (·.IsAddress) :=
        List.filter_cons_of_pos (decide_eq_true haddress)
      rw [hkept, List.filterMap_cons_some hfound, List.forall₂_cons_left_iff]
      constructor
      · rintro ⟨b, bs, hb, hbs, rfl⟩
        rw [← address?_eq_some_iff, hfound] at hb
        cases hb
        rw [(ih hrs).mp hbs]
      · rintro rfl
        exact ⟨a, _, ha, (ih hrs).mpr rfl, rfl⟩
    · have hnone : r.address? = none := by
        rw [address?_eq_none_iff]
        intro a ha
        exact haddress (exists_holds_iff.mp ⟨a, ha⟩).1
      have hdropped : (r :: rs).filter (·.IsAddress) = rs.filter (·.IsAddress) :=
        List.filter_cons_of_neg (by simpa using haddress)
      rw [hdropped, List.filterMap_cons_none hnone]
      exact ih hrs

end Record

namespace Message

/-- Octets are a message whose questions and whose answer section are these, in any way of writing
them. What stands behind the section does not matter. -/
structure Carries (d : Octets) (qs : List Question) (rs : List Record) : Prop where
  header : Header.size ≤ d.length
  questions : ∃ n : UInt16, At d 4 (wordOctets n) ∧ n.toNat = qs.length
  answers : ∃ n : UInt16, At d 6 (wordOctets n) ∧ n.toNat = rs.length
  sections : ∃ p e, InTurn (QuestionAt d) Header.size qs p ∧ InTurn (RecordAt d) p rs e

variable {d rest : Octets} {qs : List Question} {rs : List Record} {h : Header}

theorem at_answers (hd : d = h.encode ++ rest) :
    At d 6 (wordOctets h.answers) := by
  subst hd
  exact List.prefix_append _ _

/-- Any sections can be carried: it is enough to write out all names. -/
theorem carries_of_encode
    (hd : d = h.encode ++ (qs.flatMap Question.encode ++ rs.flatMap Record.encode ++ rest))
    (hqs : h.questions.toNat = qs.length) (hrs : h.answers.toNat = rs.length)
    (hnames : ∀ q ∈ qs, q.name.Valid ∧ q.name.wire.length ≤ Cursor.nameLimit)
    (howners : ∀ r ∈ rs, r.owner.Valid ∧ r.owner.wire.length ≤ Cursor.nameLimit)
    (hdata : ∀ r ∈ rs, r.data.length < 65536) : Carries d qs rs := by
  obtain ⟨_, _, hcount⟩ := at_header hd
  have hbody : d.drop Header.size =
      (qs.flatMap Question.encode ++ rs.flatMap Record.encode) ++ rest := by
    rw [hd]
    exact List.drop_left' h.length_encode
  obtain ⟨hquestions, hrecords⟩ := at_append.mp (at_iff.mpr ⟨rest, hbody⟩)
  refine ⟨?_, ⟨_, hcount, hqs⟩, ⟨_, at_answers hd, hrs⟩, _, _,
    inTurn_flatMap ?_ hquestions, inTurn_flatMap ?_ hrecords⟩
  · rw [hd, List.length_append, h.length_encode]
    exact Nat.le_add_right _ _
  · intro q hq p hat
    obtain ⟨hvalid, hfits⟩ := hnames q hq
    exact Question.questionAt_of_encode hvalid hfits hat
  · intro r hr p hat
    obtain ⟨hvalid, hfits⟩ := howners r hr
    exact Record.recordAt_of_encode hvalid hfits (hdata r hr) hat

/-- The records of the answer section are found in a message that carries them. -/
theorem answerRecords_of_carries (h : Carries d qs rs) :
    ∃ m, ofOctets? d = some m ∧ m.answerRecords = rs := by
  obtain ⟨⟨header, rest⟩, hdecode⟩ :=
    Option.isSome_iff_exists.mp ((Header.decode_isSome_iff d).mpr h.header)
  have hd := Header.decode_eq_some_iff.mp hdecode
  obtain ⟨_, _, hcount⟩ := at_header hd
  obtain ⟨n, hn, hqs⟩ := h.questions
  obtain ⟨k, hk, hrs⟩ := h.answers
  obtain ⟨p, e, hquestions, hrecords⟩ := h.sections
  obtain rfl := wordOctets_inj.mp (hcount.eq hn rfl)
  obtain rfl := wordOctets_inj.mp ((at_answers hd).eq hk rfl)
  let m : Message := ⟨d, header⟩
  have hm : ofOctets? d = some m := by
    unfold ofOctets?
    rw [hdecode]
    rfl
  have hfound := @upTo_answerRecords p m qs hqs.symm hquestions
  have hcarried := hrecords.upTo
  rw [← hrs] at hcarried
  exact ⟨m, hm, upTo_records_unique hfound hcarried⟩

/-- A message with sound records in its answer section brings the addresses of those that are of an
address type, and gathering the answer of a server puts them behind what is gathered already. -/
theorem addresses_of_carries (h : Carries d qs rs) (hsound : ∀ r ∈ rs, r.Sound) :
    ∃ m, ofOctets? d = some m ∧ m.answerRecords = rs ∧
      List.Forall₂ Record.Holds (rs.filter (·.IsAddress)) m.addresses ∧
      ∀ (ask : RecordType → Activity Answer) (type : RecordType) (types : List RecordType)
        (gathered : List Address) (first : Option Failure), ask type = pure (.ok m.addresses) →
        Servers.askTypes ask (type :: types) gathered first =
          Servers.askTypes ask types (gathered ++ m.addresses) first := by
  obtain ⟨m, hm, hrecords⟩ := answerRecords_of_carries h
  refine ⟨m, hm, hrecords, ?_, ?_⟩
  · unfold addresses
    rw [hrecords]
    exact (Record.forall₂_holds_iff hsound).mpr rfl
  · intro ask type types gathered first hask
    rw [Servers.askTypes, hask, pure_bind]

/-- A reply to a question for `example`, an alias whose target is found in the alias's data, with one
IPv4 address twice and an IPv6 address. It names an address of a server, too. -/
def aliasReply : Octets :=
  [0, 0, 0x81, 0x80, 0, 1, 0, 4, 0, 1, 0, 0, 7, 101, 120, 97, 109, 112, 108, 101, 0, 0, 1, 0, 1,
    0xc0, 12, 0, 5, 0, 1, 0, 0, 14, 16, 0, 4, 1, 97, 0xc0, 12,
    0xc0, 37, 0, 1, 0, 1, 0, 0, 14, 16, 0, 4, 192, 0, 2, 1,
    0xc0, 37, 0, 1, 0, 1, 0, 0, 14, 16, 0, 4, 192, 0, 2, 1,
    0xc0, 37, 0, 28, 0, 1, 0, 0, 14, 16, 0, 16, 0x20, 1, 0xd, 0xb8, 0, 0, 0, 0, 0, 0, 0, 0, 0, 0, 0, 1,
    0xc0, 12, 0, 1, 0, 1, 0, 0, 14, 16, 0, 4, 203, 0, 113, 9]

def aliasName : DomainName := ⟨[[101, 120, 97, 109, 112, 108, 101]]⟩

def aliasTarget : DomainName := ⟨[[97], [101, 120, 97, 109, 112, 108, 101]]⟩

def aliasRecords : List Record :=
  let a : Record := ⟨aliasTarget, 1, 1, (0, 3600), [192, 0, 2, 1]⟩
  [⟨aliasName, 5, 1, (0, 3600), [1, 97, 0xc0, 12]⟩, a, a,
    ⟨aliasTarget, 28, 1, (0, 3600), [0x20, 1, 0xd, 0xb8, 0, 0, 0, 0, 0, 0, 0, 0, 0, 0, 0, 1]⟩]

theorem carries_aliasReply : Carries aliasReply [⟨aliasName, 1, 1⟩] aliasRecords := by
  have hname : Spells aliasReply 12 aliasName.labels 21 := .wire (by decide) ⟨_, rfl⟩
  have htarget : Spells aliasReply 37 aliasTarget.labels 41 :=
    .label (by decide) (by decide) ⟨_, rfl⟩ (.pointer ⟨_, rfl⟩ (by decide) (by decide) hname)
  refine ⟨by decide, ⟨1, ⟨_, rfl⟩, rfl⟩, ⟨4, ⟨_, rfl⟩, rfl⟩, 25, 101, ?_, ?_⟩
  · exact .cons (.intro hname (by decide) ⟨_, rfl⟩) .nil
  · refine .cons (.intro (.pointer ⟨_, rfl⟩ (by decide) (by decide) hname) ?_ ?_ ⟨_, rfl⟩)
      (.cons (.intro (.pointer ⟨_, rfl⟩ (by decide) (by decide) htarget) ?_ ?_ ⟨_, rfl⟩)
      (.cons (.intro (.pointer ⟨_, rfl⟩ (by decide) (by decide) htarget) ?_ ?_ ⟨_, rfl⟩)
      (.cons (.intro (.pointer ⟨_, rfl⟩ (by decide) (by decide) htarget) ?_ ?_ ⟨_, rfl⟩) .nil)))
      <;> decide

theorem addresses_of_carries_alias :
    Carries aliasReply [⟨aliasName, 1, 1⟩] aliasRecords ∧ (∀ r ∈ aliasRecords, r.Sound) ∧
      ∃ m, ofOctets? aliasReply = some m ∧ m.answerRecords = aliasRecords ∧
        m.addresses = [.v4 ⟨192, 0, 2, 1⟩, .v4 ⟨192, 0, 2, 1⟩,
          .v6 ⟨0x2001, 0xdb8, 0, 0, 0, 0, 0, 1⟩] ∧
        Servers.askTypes (fun _ => pure (.ok m.addresses)) [.a] [.v4 ⟨198, 51, 100, 7⟩] none =
          pure (.ok (.v4 ⟨198, 51, 100, 7⟩ :: m.addresses, none)) := by
  have hsound : ∀ r ∈ aliasRecords, r.Sound := by decide
  obtain ⟨m, hm, hrecords, hheld, hgathered⟩ := addresses_of_carries carries_aliasReply hsound
  refine ⟨carries_aliasReply, hsound, m, hm, hrecords, ?_, ?_⟩
  · exact (Record.forall₂_holds_iff hsound).mp hheld
  · exact hgathered (fun _ => pure (.ok m.addresses)) .a [] [.v4 ⟨198, 51, 100, 7⟩] none rfl

end Message

end HostLookup
