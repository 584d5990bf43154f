import HostLookup.Message.Request
import HostLookup.Proofs.Message.Names

/-!
Replies to a request, told by the octets at their positions in a message: no reader takes part in
it. The messages that are found by reading headers and questions are the same ones, and it does not
matter if a message is cut behind its question.
-/
set_option autoImplicit false

namespace HostLookup

variable {message os rest : Octets} {w v : UInt16} {p : Nat} {r : Request}

theorem takeWord_eq_some_iff : takeWord os = some (w, rest) ↔ os = wordOctets w ++ rest := by
  constructor
  · intro h
    match os, h with
    | high :: low :: tail, h =>
      cases h
      rw [wordOctets, splitWord_joinOctets]
      rfl
  · rintro rfl
    exact takeWord_wordOctets w rest

theorem wordOctets_inj : wordOctets w = wordOctets v ↔ w = v := by
  constructor
  · intro h
    have hw := takeWord_wordOctets w []
    rw [h, takeWord_wordOctets v []] at hw
    cases hw
    rfl
  · exact congrArg wordOctets

@[simp] theorem length_wordOctets (w : UInt16) : (wordOctets w).length = 2 := rfl

theorem Header.decode_eq_some_iff {h : Header} :
    decode os = some (h, rest) ↔ os = h.encode ++ rest := by
  constructor
  · intro hd
    unfold decode at hd
    split at hd
    · cases hd
      simp [encode, wordOctets, splitWord_joinOctets]
    · cases hd
  · rintro rfl
    exact decode_encode h rest

theorem Cursor.word?_eq_some_iff {b : Cursor} : word? (seek message p) = some (w, b) ↔
    Message.At message p (wordOctets w) ∧ b = seek message (p + 2) := by
  unfold word?
  constructor
  · intro h
    obtain ⟨⟨v, rest⟩, htake, hb⟩ := Option.map_eq_some_iff.mp h
    cases hb
    have hrest := takeWord_eq_some_iff.mp htake
    have hbehind := Message.drop_behind hrest
    exact ⟨Message.at_iff.mpr ⟨rest, hrest⟩, by rw [seek, ← hbehind]; rfl⟩
  · rintro ⟨hat, rfl⟩
    obtain ⟨rest, hrest⟩ := Message.at_iff.mp hat
    have hbehind : seek message (p + 2) = ⟨p + 2, rest⟩ := seek_behind hrest
    rw [seek, takeWord_eq_some_iff.mpr hrest, hbehind]
    rfl

theorem DomainName.length_wire_eq {m n : DomainName} (h : m.sameUpToCase n = true) :
    m.wire.length = n.wire.length := by
  obtain ⟨ls⟩ := m
  obtain ⟨ms⟩ := n
  replace h : ls.map (List.map Label.foldOctet) = ms.map (List.map Label.foldOctet) := eq_of_beq h
  induction ls generalizing ms with
  | nil =>
    rw [List.map_nil] at h
    rw [List.map_eq_nil_iff.mp h.symm]
  | cons l ls ih =>
    obtain ⟨m, ms', rfl, hm, hms⟩ := List.map_eq_cons_iff.mp h.symm
    have hlength := congrArg List.length hm
    rw [List.length_map, List.length_map] at hlength
    rw [length_wire_cons, length_wire_cons, ih ms' hms.symm, hlength]

namespace Message

theorem at_append {first second : Octets} : At message p (first ++ second) ↔
    At message p first ∧ At message (p + first.length) second := by
  constructor
  · intro h
    obtain ⟨rest, hrest⟩ := at_iff.mp h
    rw [List.append_assoc] at hrest
    exact ⟨at_iff.mpr ⟨_, hrest⟩, at_iff.mpr ⟨rest, drop_behind hrest⟩⟩
  · rintro ⟨hfirst, hsecond⟩
    obtain ⟨rest, hrest⟩ := at_iff.mp hfirst
    obtain ⟨rest', hrest'⟩ := at_iff.mp hsecond
    rw [drop_behind hrest] at hrest'
    exact at_iff.mpr ⟨rest', by rw [hrest, hrest', List.append_assoc]⟩

/-- What stands at a position is told by its length. -/
theorem At.eq {other : Octets} (h : At message p os) (h' : At message p other)
    (hlength : os.length = other.length) : os = other :=
  (List.prefix_of_prefix_length_le h h' (Nat.le_of_eq hlength)).eq_of_length hlength

theorem At.words_eq {w' v' : UInt16} (h : At message p (wordOctets w ++ wordOctets v))
    (h' : At message p (wordOctets w' ++ wordOctets v')) : w = w' ∧ v = v' := by
  obtain ⟨hw, hv⟩ := List.append_inj (h.eq h' rfl) rfl
  exact ⟨wordOctets_inj.mp hw, wordOctets_inj.mp hv⟩

/-- A message is a reply to a request: it has a whole header with the request's identity, the flag
of replies and one question, and the question is the request's, up to the case of the name. -/
structure IsReply (r : Request) (d : Octets) : Prop where
  header : Header.size ≤ d.length
  id : At d 0 (wordOctets r.id)
  reply : ∃ flags : UInt8, At d 2 [flags] ∧ 128 ≤ flags.toNat
  questions : At d 4 (wordOctets 1)
  question : ∃ (name : DomainName) (behind : Nat), Spells d Header.size name.labels behind ∧
    name.wire.length ≤ Cursor.nameLimit ∧ name.sameUpToCase r.name = true ∧
    At d behind (wordOctets r.type.code ++ wordOctets Question.internet)

end Message

theorem Question.read?_eq_some_iff {q : Question} {b : Cursor} :
    read? message (.seek message p) = some (q, b) ↔ ∃ behind,
      Message.Spells message p q.name.labels behind ∧ q.name.wire.length ≤ Cursor.nameLimit ∧
      Message.At message behind (wordOctets q.type ++ wordOctets q.cls) ∧
      b = .seek message (behind + 4) := by
  unfold read?
  constructor
  · intro h
    obtain ⟨⟨name, _⟩, hname, h⟩ := Option.bind_eq_some_iff.mp h
    obtain ⟨behind, hspells, hfits, rfl⟩ := Cursor.name?_eq_some_iff.mp hname
    obtain ⟨⟨type, _⟩, htype, h⟩ := Option.bind_eq_some_iff.mp h
    obtain ⟨hattype, rfl⟩ := Cursor.word?_eq_some_iff.mp htype
    obtain ⟨⟨cls, _⟩, hcls, h⟩ := Option.bind_eq_some_iff.mp h
    obtain ⟨hatcls, rfl⟩ := Cursor.word?_eq_some_iff.mp hcls
    cases h
    exact ⟨behind, hspells, hfits, Message.at_append.mpr ⟨hattype, hatcls⟩, rfl⟩
  · rintro ⟨behind, hspells, hfits, hat, rfl⟩
    obtain ⟨htype, hcls⟩ := Message.at_append.mp hat
    refine Option.bind_eq_some_iff.mpr ⟨(q.name, .seek message behind), ?_, ?_⟩
    · exact Cursor.name?_eq_some_iff.mpr ⟨behind, hspells, hfits, rfl⟩
    refine Option.bind_eq_some_iff.mpr ⟨(q.type, .seek message (behind + 2)), ?_, ?_⟩
    · exact Cursor.word?_eq_some_iff.mpr ⟨htype, rfl⟩
    refine Option.bind_eq_some_iff.mpr ⟨(q.cls, .seek message (behind + 4)), ?_, rfl⟩
    exact Cursor.word?_eq_some_iff.mpr ⟨hcls, rfl⟩

theorem Question.sameAll_singleton_iff {q q' : Question} : sameAll [q] [q'] = true ↔
    q.name.sameUpToCase q'.name = true ∧ q.type = q'.type ∧ q.cls = q'.cls := by
  simp [sameAll, same, and_assoc]

/-- A request asks one question, which can be read unless its name is too long. -/
theorem Request.read?_question {q : Question} (hvalid : r.name.Valid) :
    (∃ c, Question.read? r.octets (.seek r.octets Header.size) = some (q, c)) ↔
      r.name.wire.length ≤ Cursor.nameLimit ∧ q = r.question := by
  have hdrop : r.octets.drop Header.size = r.question.encode :=
    List.drop_left' r.header.length_encode
  have hquestion : Message.At r.octets Header.size r.question.encode :=
    Message.at_iff.mpr ⟨[], by rw [hdrop, List.append_nil]⟩
  rw [Question.encode, List.append_assoc, Message.at_append] at hquestion
  obtain ⟨hname, hrest⟩ := hquestion
  have hspells := Message.Spells.wire hvalid hname
  constructor
  · rintro ⟨c, hread⟩
    obtain ⟨behind, hspells', hfits, hat, _⟩ := Question.read?_eq_some_iff.mp hread
    obtain ⟨hlabels, rfl⟩ := Cursor.spells_unique hspells hspells'
    obtain ⟨htype, hcls⟩ := hrest.words_eq hat
    obtain ⟨⟨_⟩, _, _⟩ := q
    subst hlabels htype hcls
    exact ⟨hfits, rfl⟩
  · rintro ⟨hfits, rfl⟩
    exact ⟨_, Question.read?_eq_some_iff.mpr ⟨_, hspells, hfits, hrest, rfl⟩⟩

namespace Message

theorem questions?_of_one {m : Message} {qs : List Question} {c : Cursor}
    (h : m.header.questions = 1) : m.questions? = some (qs, c) ↔
      ∃ q, qs = [q] ∧ Question.read? m.octets m.body = some (q, c) := by
  unfold questions?
  rw [h]
  rcases hread : Question.read? m.octets m.body with _ | ⟨q, b⟩
  · simp [Question.readMany?, hread]
  · simp [Question.readMany?, hread, eq_comm]

theorem answers_eq_true_iff {reply request : Message} : reply.answers request = true ↔
    reply.header.isReply = true ∧ reply.header.id = request.header.id ∧
      reply.header.questions = request.header.questions ∧
      ∃ qs c rs c', reply.questions? = some (qs, c) ∧ request.questions? = some (rs, c') ∧
        Question.sameAll qs rs = true := by
  unfold answers
  rcases reply.questions? with _ | ⟨qs, c⟩ <;> rcases request.questions? with _ | ⟨rs, c'⟩ <;>
    simp [and_assoc]

/-- The header's fields stand at their positions. -/
theorem at_header {d : Octets} {h : Header} (hd : d = h.encode ++ rest) :
    At d 0 (wordOctets h.id) ∧ At d 2 [h.flags] ∧ At d 4 (wordOctets h.questions) := by
  subst hd
  refine ⟨?_, ?_, ?_⟩ <;> exact List.prefix_append _ _

/-- What a reader finds to be a reply to a request is one. -/
theorem answers_iff {d : Octets} {reply : Message} (hvalid : r.name.Valid)
    (h : ofOctets? d = some reply) : reply.answers r.message = true ↔ IsReply r d := by
  obtain ⟨⟨header, rest⟩, hdecode, hmessage⟩ := Option.map_eq_some_iff.mp h
  obtain rfl : Message.mk d header = reply := hmessage
  have hd := Header.decode_eq_some_iff.mp hdecode
  obtain ⟨hid, hflags, hquestions⟩ := at_header hd
  rw [answers_eq_true_iff]
  constructor
  · rintro ⟨hreply, (hsameId : header.id = r.id), (hone : header.questions = 1), qs, c, rs, c', hqs,
      hrs, hall⟩
    obtain ⟨q, rfl, hq⟩ := (questions?_of_one hone).mp hqs
    obtain ⟨q', rfl, hq'⟩ := (questions?_of_one rfl).mp hrs
    obtain ⟨_, rfl⟩ := (Request.read?_question hvalid).mp ⟨_, hq'⟩
    obtain ⟨behind, hspells, hfits, hat, _⟩ := Question.read?_eq_some_iff.mp hq
    obtain ⟨hname, htype, hcls⟩ := Question.sameAll_singleton_iff.mp hall
    refine ⟨?_, hsameId ▸ hid, ⟨_, hflags, of_decide_eq_true hreply⟩, hone ▸ hquestions,
      q.name, behind, hspells, hfits, hname, ?_⟩
    · exact (Header.decode_isSome_iff d).mp (hdecode ▸ rfl)
    · rw [htype, hcls] at hat
      exact hat
  · intro hr
    obtain ⟨flags, hat, hge⟩ := hr.reply
    obtain ⟨name, behind, hspells, hfits, hname, hrest⟩ := hr.question
    have hreply : header.isReply = true := by
      have heq := hflags.eq hat rfl
      cases heq
      exact decide_eq_true hge
    have hsameId : header.id = r.id := wordOctets_inj.mp (hid.eq hr.id rfl)
    have hone : header.questions = 1 := wordOctets_inj.mp (hquestions.eq hr.questions rfl)
    let q : Question := ⟨name, r.type.code, Question.internet⟩
    have hq : Question.read? d (.seek d Header.size) = some (q, .seek d (behind + 4)) :=
      Question.read?_eq_some_iff.mpr ⟨behind, hspells, hfits, hrest, rfl⟩
    rw [DomainName.length_wire_eq hname] at hfits
    obtain ⟨c', hq'⟩ := (Request.read?_question hvalid).mpr ⟨hfits, rfl⟩
    refine ⟨hreply, hsameId, hone, [q], .seek d (behind + 4), [r.question], c', ?_, ?_, ?_⟩
    · exact (questions?_of_one hone).mpr ⟨q, rfl, hq⟩
    · exact (questions?_of_one rfl).mpr ⟨_, rfl, hq'⟩
    · exact Question.sameAll_singleton_iff.mpr ⟨hname, rfl, rfl⟩

theorem IsReply.transfer {d e : Octets} {n : Nat} (h : IsReply r d) (hn : 272 ≤ n)
    (hat : ∀ p os, p + os.length ≤ n → At d p os → At e p os) (hlength : Header.size ≤ e.length) :
    IsReply r e := by
  obtain ⟨flags, hflags, hge⟩ := h.reply
  obtain ⟨name, behind, hspells, hfits, hname, hrest⟩ := h.question
  have hbehind := hspells.behind_le
  unfold Cursor.nameLimit at hfits
  unfold Header.size at hbehind
  constructor
  · exact hlength
  · exact hat _ _ (by simp; omega) h.id
  · exact ⟨flags, hat _ _ (by simp; omega) hflags, hge⟩
  · exact hat _ _ (by simp; omega) h.questions
  · refine ⟨name, behind, hspells.transfer hat ?_, hfits, hname, hat _ _ ?_ hrest⟩
    · unfold Header.size
      change 12 + name.wire.length + 1 ≤ n
      omega
    · simp only [List.length_append, length_wordOctets]
      change behind ≤ 12 + name.wire.length + 1 at hbehind
      omega

/-- Whether a message is a reply is told by its octets up to the end of the longest question. -/
theorem isReply_take_iff {d : Octets} {n : Nat} (hn : 272 ≤ n) :
    IsReply r (d.take n) ↔ IsReply r d := by
  have hsize : Header.size ≤ (d.take n).length ↔ Header.size ≤ d.length := by
    rw [List.length_take, Header.size]
    omega
  constructor
  · intro h
    exact h.transfer hn (fun _ _ hle => (at_take_iff hle).mp) (hsize.mp h.header)
  · intro h
    exact h.transfer hn (fun _ _ hle => (at_take_iff hle).mpr) (hsize.mpr h.header)

end Message

end HostLookup
