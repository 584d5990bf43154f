import HostLookup.Proofs.Message.Replies

/-!
The sections of a message, told by the octets at their positions. The entries of a section stand one
behind the other, and names in them may go on anywhere before. What is read of a section are the
entries that stand there, up to the first place where none does.
-/
set_option autoImplicit false

namespace HostLookup

/-- What stands behind the owner of a record. -/
def Record.fields (r : Record) : Octets :=
  wordOctets r.type ++ (wordOctets r.cls ++ (wordOctets r.ttl.1 ++ (wordOctets r.ttl.2 ++
    (wordOctets (UInt16.ofNat r.data.length) ++ r.data))))

/-- A record with its owner written out. -/
def Record.encode (r : Record) : Octets := r.owner.wire ++ r.fields

namespace Message

/-- A question stands at a position of a message, and ends at another one. -/
inductive QuestionAt (message : Octets) : Nat → Question → Nat → Prop where
  | intro {p behind : Nat} {q : Question} : Spells message p q.name.labels behind →
      q.name.wire.length ≤ Cursor.nameLimit →
      At message behind (wordOctets q.type ++ wordOctets q.cls) →
      QuestionAt message p q (behind + 4)

/-- A record stands at a position of a message, and ends at another one. -/
inductive RecordAt (message : Octets) : Nat → Record → Nat → Prop where
  | intro {p behind : Nat} {r : Record} : Spells message p r.owner.labels behind →
      r.owner.wire.length ≤ Cursor.nameLimit → r.data.length < 65536 →
      At message behind r.fields → RecordAt message p r (behind + r.fields.length)

variable {α : Type} {stands : Nat → α → Nat → Prop}

/-- Entries stand one behind the other from a position on, and end at another one. -/
inductive InTurn (stands : Nat → α → Nat → Prop) : Nat → List α → Nat → Prop where
  | nil {p : Nat} : InTurn stands p [] p
  | cons {p q e : Nat} {a : α} {as : List α} :
      stands p a q → InTurn stands q as e → InTurn stands p (a :: as) e

/-- The entries that stand one behind the other from a position on, up to a number of them or to
the first place where none stands. -/
inductive UpTo (stands : Nat → α → Nat → Prop) : Nat → Nat → List α → Prop where
  | full {p : Nat} : UpTo stands 0 p []
  | stops {n p : Nat} : (∀ a e, ¬ stands p a e) → UpTo stands (n + 1) p []
  | next {n p e : Nat} {a : α} {as : List α} :
      stands p a e → UpTo stands n e as → UpTo stands (n + 1) p (a :: as)

theorem InTurn.upTo {p e : Nat} {as : List α} (h : InTurn stands p as e) :
    UpTo stands as.length p as := by
  induction h with
  | nil => exact .full
  | cons ha _ ih => exact .next ha ih

/-- Entries that are written one behind the other stand so. -/
theorem inTurn_flatMap {message : Octets} {p : Nat} {encode : α → Octets} {as : List α}
    (hone : ∀ a ∈ as, ∀ q, At message q (encode a) → stands q a (q + (encode a).length))
    (h : At message p (as.flatMap encode)) :
    InTurn stands p as (p + (as.flatMap encode).length) := by
  induction as generalizing p with
  | nil => exact .nil
  | cons a as ih =>
    obtain ⟨ha, has⟩ := List.forall_mem_cons.mp hone
    rw [List.flatMap_cons] at h ⊢
    obtain ⟨hfirst, hrest⟩ := at_append.mp h
    rw [List.length_append, ← Nat.add_assoc]
    exact .cons (ha p hfirst) (ih has hrest)

/-- Where at most one entry stands at a place, a section has only one beginning. -/
theorem UpTo.unique {n p : Nat} {as bs : List α}
    (hone : ∀ p a b e f, stands p a e → stands p b f → a = b ∧ e = f)
    (h : UpTo stands n p as) (h' : UpTo stands n p bs) : as = bs := by
  induction h generalizing bs with
  | full =>
    cases h'
    rfl
  | stops hnone =>
    cases h' with
    | stops => rfl
    | next hb _ => exact absurd hb (hnone _ _)
  | next ha _ ih =>
    cases h' with
    | stops hnone => exact absurd ha (hnone _ _)
    | next hb hbs =>
      obtain ⟨rfl, rfl⟩ := hone _ _ _ _ _ ha hb
      rw [ih hbs]

end Message

variable {message : Octets} {p : Nat}

namespace Cursor

open Message

theorem seek_inj {q : Nat} : seek message p = seek message q ↔ p = q := by
  constructor
  · exact congrArg position
  · exact congrArg (seek message)

theorem take?_seek_eq_some_iff {n : Nat} {os : Octets} {b : Cursor} :
    take? (seek message p) n = some (os, b) ↔
      os.length = n ∧ At message p os ∧ b = seek message (p + n) := by
  rw [take?_eq_some_iff]
  constructor
  · rintro ⟨rfl, hrest, hposition⟩
    refine ⟨rfl, at_iff.mpr ⟨_, hrest⟩, ?_⟩
    have hbehind := seek_behind hrest
    cases b
    rw [hbehind]
    exact congrArg (Cursor.mk · _) hposition
  · rintro ⟨rfl, hat, rfl⟩
    obtain ⟨rest, hrest⟩ := at_iff.mp hat
    rw [seek_behind hrest]
    exact ⟨rfl, hrest, rfl⟩

section

variable {α : Type} {a : α}

theorem name?_bind_eq_some_iff {f : DomainName × Cursor → Option α} :
    (name? message (seek message p)).bind f = some a ↔ ∃ name q,
      Spells message p name.labels q ∧ name.wire.length ≤ nameLimit ∧
        f (name, seek message q) = some a := by
  constructor
  · intro h
    obtain ⟨⟨name, b⟩, hname, hf⟩ := Option.bind_eq_some_iff.mp h
    obtain ⟨q, hspells, hfits, rfl⟩ := name?_eq_some_iff.mp hname
    exact ⟨name, q, hspells, hfits, hf⟩
  · rintro ⟨name, q, hspells, hfits, hf⟩
    exact Option.bind_eq_some_iff.mpr ⟨_, name?_eq_some_iff.mpr ⟨q, hspells, hfits, rfl⟩, hf⟩

theorem word?_bind_eq_some_iff {f : UInt16 × Cursor → Option α} :
    (word? (seek message p)).bind f = some a ↔ ∃ w,
      At message p (wordOctets w) ∧ f (w, seek message (p + 2)) = some a := by
  constructor
  · intro h
    obtain ⟨⟨w, b⟩, hw, hf⟩ := Option.bind_eq_some_iff.mp h
    obtain ⟨hat, rfl⟩ := word?_eq_some_iff.mp hw
    exact ⟨w, hat, hf⟩
  · rintro ⟨w, hat, hf⟩
    exact Option.bind_eq_some_iff.mpr ⟨_, word?_eq_some_iff.mpr ⟨hat, rfl⟩, hf⟩

theorem take?_bind_eq_some_iff {n : Nat} {f : Octets × Cursor → Option α} :
    (take? (seek message p) n).bind f = some a ↔ ∃ os : Octets,
      os.length = n ∧ At message p os ∧ f (os, seek message (p + n)) = some a := by
  constructor
  · intro h
    obtain ⟨⟨os, b⟩, hos, hf⟩ := Option.bind_eq_some_iff.mp h
    obtain ⟨hlength, hat, rfl⟩ := take?_seek_eq_some_iff.mp hos
    exact ⟨os, hlength, hat, hf⟩
  · rintro ⟨os, hlength, hat, hf⟩
    exact Option.bind_eq_some_iff.mpr ⟨_, take?_seek_eq_some_iff.mpr ⟨hlength, hat, rfl⟩, hf⟩

end

end Cursor

open Message

/-- The questions that are read are those that stand in the message. -/
theorem Question.read?_iff_questionAt {q : Question} {b : Cursor} :
    read? message (.seek message p) = some (q, b) ↔
      ∃ e, QuestionAt message p q e ∧ b = .seek message e := by
  rw [read?_eq_some_iff]
  constructor
  · rintro ⟨behind, hspells, hfits, hat, rfl⟩
    exact ⟨_, .intro hspells hfits hat, rfl⟩
  · rintro ⟨_, ⟨hspells, hfits, hat⟩, rfl⟩
    exact ⟨_, hspells, hfits, hat, rfl⟩

theorem Record.length_fields (r : Record) : r.fields.length = 10 + r.data.length := by
  simp only [fields, List.length_append, length_wordOctets]
  omega

/-- The records that are read are those that stand in the message. -/
theorem Record.read?_iff_recordAt {r : Record} {b : Cursor} :
    read? message (.seek message p) = some (r, b) ↔
      ∃ e, RecordAt message p r e ∧ b = .seek message e := by
  unfold read?
  simp only [Option.bind_eq_bind, Cursor.name?_bind_eq_some_iff, Cursor.word?_bind_eq_some_iff,
    Cursor.take?_bind_eq_some_iff]
  constructor
  · rintro ⟨owner, q, hspells, hfits, type, htype, cls, hcls, high, hhigh, low, hlow, length,
      hlength, data, hsize, hdata, h⟩
    cases h
    have hcount : UInt16.ofNat data.length = length := by rw [hsize, UInt16.ofNat_toNat]
    have hbound : data.length < 65536 := hsize ▸ length.toNat_lt
    have hat : At message q (fields ⟨owner, type, cls, (high, low), data⟩) := by
      simp only [fields, hcount, at_append, length_wordOctets]
      exact ⟨htype, hcls, hhigh, hlow, hlength, hdata⟩
    refine ⟨_, .intro hspells hfits hbound hat, ?_⟩
    rw [Cursor.seek_inj, length_fields]
    dsimp only
    omega
  · rintro ⟨e, hrecord, rfl⟩
    obtain @⟨behind, _, hspells, hfits, hbound, hat⟩ := hrecord
    have hcount : (UInt16.ofNat r.data.length).toNat = r.data.length :=
      UInt16.toNat_ofNat_of_lt' hbound
    have hend : behind + 2 + 2 + 2 + 2 + 2 + r.data.length = behind + r.fields.length := by
      rw [length_fields]
      omega
    simp only [fields, at_append, length_wordOctets] at hat
    obtain ⟨htype, hcls, hhigh, hlow, hcounted, hdata⟩ := hat
    refine ⟨r.owner, _, hspells, hfits, r.type, htype, r.cls, hcls, r.ttl.1, hhigh, r.ttl.2, hlow,
      _, hcounted, r.data, hcount.symm, hdata, ?_⟩
    rw [hcount, hend]
    rfl

theorem Question.questionAt_of_encode {q : Question} (hvalid : q.name.Valid)
    (hfits : q.name.wire.length ≤ Cursor.nameLimit) (h : At message p q.encode) :
    QuestionAt message p q (p + q.encode.length) := by
  unfold encode at h ⊢
  rw [List.append_assoc] at h ⊢
  obtain ⟨hname, hrest⟩ := at_append.mp h
  rw [List.length_append, ← Nat.add_assoc]
  exact .intro (.wire hvalid hname) hfits hrest

theorem Record.recordAt_of_encode {r : Record} (hvalid : r.owner.Valid)
    (hfits : r.owner.wire.length ≤ Cursor.nameLimit) (hsize : r.data.length < 65536)
    (h : At message p r.encode) : RecordAt message p r (p + r.encode.length) := by
  obtain ⟨howner, hfields⟩ := at_append.mp h
  rw [encode, List.length_append, ← Nat.add_assoc]
  exact .intro (.wire hvalid howner) hfits hsize hfields

/-- At most one record stands at a position, and it ends at one place. -/
theorem Message.RecordAt.unique {q e f : Nat} {r s : Record} (h : RecordAt message q r e)
    (h' : RecordAt message q s f) : r = s ∧ e = f := by
  have hr := Record.read?_iff_recordAt.mpr ⟨e, h, rfl⟩
  rw [Record.read?_iff_recordAt.mpr ⟨f, h', rfl⟩, Option.some_inj, Prod.mk.injEq,
    Cursor.seek_inj] at hr
  exact ⟨hr.1.symm, hr.2.symm⟩

theorem Message.upTo_records_unique {n : Nat} {rs ss : List Record}
    (h : UpTo (RecordAt message) n p rs) (h' : UpTo (RecordAt message) n p ss) : rs = ss :=
  UpTo.unique (fun _ _ _ _ _ hr hs => hr.unique hs) h h'

theorem Question.readMany?_eq_some_iff {n : Nat} {qs : List Question} {b : Cursor} :
    readMany? message n (.seek message p) = some (qs, b) ↔
      qs.length = n ∧ ∃ e, InTurn (QuestionAt message) p qs e ∧ b = .seek message e := by
  induction n generalizing p qs b with
  | zero =>
    constructor
    · intro h
      cases h
      exact ⟨rfl, p, .nil, rfl⟩
    · rintro ⟨hlength, e, hin, rfl⟩
      obtain rfl := List.length_eq_zero_iff.mp hlength
      cases hin
      rfl
  | succ n ih =>
    unfold readMany?
    constructor
    · intro h
      obtain ⟨⟨q, c⟩, hq, h⟩ := Option.bind_eq_some_iff.mp h
      obtain ⟨e, hat, rfl⟩ := read?_iff_questionAt.mp hq
      obtain ⟨⟨more, c⟩, hmore, h⟩ := Option.bind_eq_some_iff.mp h
      obtain ⟨rfl, f, hin, rfl⟩ := ih.mp hmore
      cases h
      exact ⟨rfl, f, .cons hat hin, rfl⟩
    · rintro ⟨hlength, e, hin, rfl⟩
      cases hin with
      | nil => cases hlength
      | @cons _ q _ question more hat hin =>
        have hmore : more.length = n := Nat.succ.inj hlength
        refine Option.bind_eq_some_iff.mpr ⟨(question, .seek message q), ?_, ?_⟩
        · exact read?_iff_questionAt.mpr ⟨q, hat, rfl⟩
        · exact Option.bind_eq_some_iff.mpr ⟨_, ih.mpr ⟨hmore, e, hin, rfl⟩, rfl⟩

/-- What is read of a section are its records up to the first place where none stands. -/
theorem Record.upTo_readUpTo (message : Octets) (n p : Nat) :
    UpTo (RecordAt message) n p (readUpTo message n (.seek message p)) := by
  induction n generalizing p with
  | zero => exact .full
  | succ n ih =>
    unfold readUpTo
    cases hread : read? message (.seek message p) with
    | none =>
      apply UpTo.stops
      intro r e hr
      rw [read?_iff_recordAt.mpr ⟨e, hr, rfl⟩] at hread
      cases hread
    | some found =>
      obtain ⟨r, c⟩ := found
      obtain ⟨e, hr, rfl⟩ := read?_iff_recordAt.mp hread
      exact .next hr (ih e)

namespace Message

variable {m : Message} {qs : List Question}

theorem questions?_eq_some_iff {c : Cursor} : m.questions? = some (qs, c) ↔
    qs.length = m.header.questions.toNat ∧
      ∃ e, InTurn (QuestionAt m.octets) Header.size qs e ∧ c = .seek m.octets e :=
  Question.readMany?_eq_some_iff

/-- The records that are found behind the questions. -/
theorem upTo_answerRecords (hlength : qs.length = m.header.questions.toNat)
    (h : InTurn (QuestionAt m.octets) Header.size qs p) :
    UpTo (RecordAt m.octets) m.header.answers.toNat p m.answerRecords := by
  unfold answerRecords
  rw [questions?_eq_some_iff.mpr ⟨hlength, p, h, rfl⟩]
  exact Record.upTo_readUpTo m.octets _ p

/-- Where the questions do not stand, no record is found. -/
theorem answerRecords_eq_nil (h : ∀ (qs : List Question) (p : Nat),
    qs.length = m.header.questions.toNat → ¬ InTurn (QuestionAt m.octets) Header.size qs p) :
    m.answerRecords = [] := by
  unfold answerRecords
  cases hquestions : m.questions? with
  | none => rfl
  | some found =>
    obtain ⟨qs, c⟩ := found
    obtain ⟨hlength, e, hin, _⟩ := questions?_eq_some_iff.mp hquestions
    exact absurd hin (h qs e hlength)

end Message

end HostLookup
