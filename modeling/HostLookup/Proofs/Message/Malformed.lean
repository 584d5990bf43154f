import HostLookup.Proofs.Message.Addresses

/-!
Malformed messages. One with malformed questions brings no address. Reading an answer section ends
at the first place where no record stands. A record of an address type with too few or too many
octets of data is passed over, however, and records behind it are read. So the addresses are those of
the records before the first malformed one only if no record behind it holds an address.
-/
set_option autoImplicit false

namespace HostLookup.Message

/-- A record stands at a position, and has as many octets of data as its type asks for. -/
def WellFormedAt (message : Octets) (p : Nat) (r : Record) (e : Nat) : Prop :=
  RecordAt message p r e ∧ r.Sound

variable {message : Octets} {n p : Nat} {rs : List Record}

/-- The records up to the first malformed one are the sound ones that the section begins with. -/
theorem UpTo.takeWhile_sound (h : UpTo (RecordAt message) n p rs) :
    UpTo (WellFormedAt message) n p (rs.takeWhile (·.Sound)) := by
  induction h with
  | full => exact .full
  | stops hnone => exact .stops fun r e hr => hnone r e hr.1
  | @next n p e r rs hr _ ih =>
    by_cases hsound : r.Sound
    · rw [List.takeWhile_cons_of_pos (by simpa using hsound)]
      exact .next ⟨hr, hsound⟩ ih
    · rw [List.takeWhile_cons_of_neg (by simpa using hsound)]
      apply UpTo.stops
      rintro s f ⟨hs, hother⟩
      obtain ⟨rfl, _⟩ := hr.unique hs
      exact hsound hother

theorem filterMap_sound (rs : List Record) :
    (rs.filter (·.Sound)).filterMap Record.address? = rs.filterMap Record.address? := by
  induction rs with
  | nil => rfl
  | cons r rs ih =>
    by_cases hsound : r.Sound
    · rw [List.filter_cons_of_pos (by simpa using hsound), List.filterMap_cons, List.filterMap_cons,
        ih]
    · have hnone : r.address? = none := by
        rw [Record.address?_eq_none_iff]
        intro a ha
        exact hsound (Record.exists_holds_iff.mp ⟨a, ha⟩).2
      rw [List.filter_cons_of_neg (by simpa using hsound), List.filterMap_cons_none hnone, ih]

theorem sound_of_mem_filter {r : Record} (h : r ∈ rs.filter (·.Sound)) : r.Sound :=
  of_decide_eq_true (List.mem_filter.mp h).2

theorem sound_of_mem_takeWhile {r : Record} (h : r ∈ rs.takeWhile (·.Sound)) : r.Sound :=
  of_decide_eq_true (List.all_eq_true.mp List.all_takeWhile r h)

/-- The addresses that a message brings: none if its questions are malformed, and else those of the
sound records of an address type, up to the first place where no record stands. -/
inductive Yields (m : Message) : List Address → Prop where
  | malformed : (∀ (qs : List Question) (p : Nat), qs.length = m.header.questions.toNat →
      ¬ InTurn (QuestionAt m.octets) Header.size qs p) → Yields m []
  | sections {qs : List Question} {p : Nat} {rs : List Record} {as : List Address} :
      qs.length = m.header.questions.toNat → InTurn (QuestionAt m.octets) Header.size qs p →
      UpTo (RecordAt m.octets) m.header.answers.toNat p rs →
      List.Forall₂ Record.Holds ((rs.filter (·.Sound)).filter (·.IsAddress)) as → Yields m as

theorem forall₂_sound_iff {as : List Address} :
    List.Forall₂ Record.Holds ((rs.filter (·.Sound)).filter (·.IsAddress)) as ↔
      as = rs.filterMap Record.address? := by
  rw [Record.forall₂_holds_iff fun _ => sound_of_mem_filter, filterMap_sound]

theorem yields_iff {m : Message} {as : List Address} : m.Yields as ↔ as = m.addresses := by
  constructor
  · intro h
    cases h with
    | malformed hnone =>
      unfold addresses
      rw [answerRecords_eq_nil hnone]
      rfl
    | sections hlength hquestions hrecords hheld =>
      rw [upTo_records_unique hrecords (upTo_answerRecords hlength hquestions)] at hheld
      exact forall₂_sound_iff.mp hheld
  · rintro rfl
    by_cases hquestions : ∃ (qs : List Question) (p : Nat),
        qs.length = m.header.questions.toNat ∧ InTurn (QuestionAt m.octets) Header.size qs p
    · obtain ⟨qs, p, hlength, hstand⟩ := hquestions
      exact .sections hlength hstand (upTo_answerRecords hlength hstand) (forall₂_sound_iff.mpr rfl)
    · have hnone : ∀ (qs : List Question) (p : Nat), qs.length = m.header.questions.toNat →
          ¬ InTurn (QuestionAt m.octets) Header.size qs p :=
        fun qs p hlength hstand => hquestions ⟨qs, p, hlength, hstand⟩
      unfold addresses
      rw [answerRecords_eq_nil hnone]
      exact .malformed hnone

/-- The addresses are those of the first records just if the others hold none. -/
theorem forall₂_holds_append_iff {sound behind : List Record} (h : ∀ r ∈ sound, r.Sound) :
    List.Forall₂ Record.Holds (sound.filter (·.IsAddress))
        ((sound ++ behind).filterMap Record.address?) ↔
      ∀ r ∈ behind, ∀ a, ¬ r.Holds a := by
  rw [Record.forall₂_holds_iff h, List.filterMap_append, List.append_right_eq_self,
    List.filterMap_eq_nil_iff]
  exact forall₂_congr fun r _ => Record.address?_eq_none_iff

/-- A message with malformed questions brings no address. With other questions, all sound records of
an address type bring theirs up to the first place where no record stands. These are the addresses up
to the first malformed record just if no record behind it holds an address. -/
theorem addresses_upTo_malformed_iff (m : Message) :
    ((∀ (qs : List Question) (p : Nat), qs.length = m.header.questions.toNat →
        ¬ InTurn (QuestionAt m.octets) Header.size qs p) → m.addresses = []) ∧
      ∀ (qs : List Question) (p : Nat), qs.length = m.header.questions.toNat →
        InTurn (QuestionAt m.octets) Header.size qs p →
        ∃ sound behind, UpTo (RecordAt m.octets) m.header.answers.toNat p (sound ++ behind) ∧
          UpTo (WellFormedAt m.octets) m.header.answers.toNat p sound ∧
          List.Forall₂ Record.Holds (((sound ++ behind).filter (·.Sound)).filter (·.IsAddress))
            m.addresses ∧
          (List.Forall₂ Record.Holds (sound.filter (·.IsAddress)) m.addresses ↔
            ∀ r ∈ behind, ∀ a, ¬ r.Holds a) := by
  constructor
  · intro hnone
    unfold addresses
    rw [answerRecords_eq_nil hnone]
    rfl
  · intro qs p hlength hquestions
    have hfound := upTo_answerRecords hlength hquestions
    have hparts : m.answerRecords = m.answerRecords.takeWhile (·.Sound) ++
        m.answerRecords.dropWhile (·.Sound) := List.takeWhile_append_dropWhile.symm
    refine ⟨_, _, hparts ▸ hfound, hfound.takeWhile_sound, ?_, ?_⟩
    · rw [← hparts]
      exact forall₂_sound_iff.mpr rfl
    · rw [← forall₂_holds_append_iff fun _ => sound_of_mem_takeWhile, ← hparts]
      rfl

theorem upTo_wellFormed_unique {ss : List Record} (h : UpTo (WellFormedAt message) n p rs)
    (h' : UpTo (WellFormedAt message) n p ss) : rs = ss :=
  UpTo.unique (fun _ _ _ _ _ hr hs => hr.1.unique hs.1) h h'

/-- Three records for IPv4 addresses, of which the second one has an octet too many. -/
def misfitRecords : List Record :=
  [[192, 0, 2, 1], [192, 0, 2, 2, 0], [192, 0, 2, 3]].map
    fun data => ⟨aliasName, 1, 1, (0, 3600), data⟩

def misfitHeader : Header := ⟨0, 0x81, 0x80, 1, 3, 0, 0⟩

/-- A reply to a question for `example` with these records. -/
def misfitReply : Message :=
  ⟨misfitHeader.encode ++ ([⟨aliasName, 1, 1⟩].flatMap Question.encode ++
    misfitRecords.flatMap Record.encode ++ []), misfitHeader⟩

theorem carries_misfitReply : Carries misfitReply.octets [⟨aliasName, 1, 1⟩] misfitRecords := by
  apply carries_of_encode rfl rfl rfl <;> decide

/-- The address behind the record with too many octets is among the addresses. -/
theorem addresses_upTo_malformed_iff_misfit :
    ofOctets? misfitReply.octets = some misfitReply ∧
      ∃ p, InTurn (QuestionAt misfitReply.octets) Header.size [⟨aliasName, 1, 1⟩] p ∧
        UpTo (WellFormedAt misfitReply.octets) 3 p (misfitRecords.take 1) ∧
        ¬ List.Forall₂ Record.Holds ((misfitRecords.take 1).filter (·.IsAddress))
          misfitReply.addresses ∧
        misfitReply.addresses = [.v4 ⟨192, 0, 2, 1⟩, .v4 ⟨192, 0, 2, 3⟩] := by
  obtain ⟨p, e, hquestions, hrecords⟩ := carries_misfitReply.sections
  obtain ⟨sound, behind, hall, hsound, hheld, hiff⟩ :=
    (addresses_upTo_malformed_iff misfitReply).2 _ p rfl hquestions
  have hparts := upTo_records_unique hall hrecords.upTo
  have hfirst := upTo_wellFormed_unique hsound hrecords.upTo.takeWhile_sound
  have htake : misfitRecords.takeWhile (·.Sound) = misfitRecords.take 1 := by decide
  rw [htake] at hfirst
  subst hfirst
  have hbehind : behind = misfitRecords.drop 1 :=
    List.append_cancel_left (hparts.trans (List.take_append_drop 1 misfitRecords).symm)
  rw [hparts, forall₂_sound_iff] at hheld
  refine ⟨rfl, p, hquestions, hsound, ?_, hheld⟩
  rw [hiff, hbehind]
  intro hnone
  exact hnone _ (List.mem_cons_of_mem _ List.mem_cons_self) (.v4 ⟨192, 0, 2, 3⟩) (.v4 rfl rfl)

end HostLookup.Message
