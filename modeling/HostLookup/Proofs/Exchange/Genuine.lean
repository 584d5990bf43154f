import HostLookup.Proofs.Exchange.Streams

/-!
Which datagram is taken for the reply. Receiving passes over all that is no reply to the request and
takes the first datagram that is one, told by its octets alone; nothing but a failure to receive
ends it before.
-/
set_option autoImplicit false

namespace HostLookup.Exchange

open Activity Message

variable {r : Request} {d : Octets} {reply : Message} {a : Incoming} {s : DatagramSocket}

/-- The reply in a datagram is what the buffer has of it. -/
theorem replyIn?_eq_some_iff (hvalid : r.name.Valid) : replyIn? r.message d = some reply ↔
    IsReply r d ∧ reply.octets = d.take bufferSize ∧ ofOctets? reply.octets = some reply := by
  have hbuffer : 272 ≤ bufferSize := by decide
  rw [replyIn?, Option.filter_eq_some_iff, ← isReply_take_iff hbuffer]
  constructor
  · rintro ⟨hm, hanswers⟩
    have hoctets : reply.octets = d.take bufferSize := by
      obtain ⟨_, _, rfl⟩ := Option.map_eq_some_iff.mp hm
      rfl
    exact ⟨(answers_iff hvalid hm).mp hanswers, hoctets, hoctets ▸ hm⟩
  · rintro ⟨hreply, hoctets, hm⟩
    rw [hoctets] at hm
    exact ⟨hm, (answers_iff hvalid hm).mpr hreply⟩

theorem exists_replyIn?_iff (hvalid : r.name.Valid) :
    (∃ reply, replyIn? r.message d = some reply) ↔ IsReply r d := by
  constructor
  · rintro ⟨reply, h⟩
    exact ((replyIn?_eq_some_iff hvalid).mp h).1
  · intro h
    have hsize := ((isReply_take_iff (n := bufferSize) (by decide)).mpr h).header
    have hdecode := (Header.decode_isSome_iff _).mpr hsize
    obtain ⟨⟨header, rest⟩, hdecode⟩ := Option.isSome_iff_exists.mp hdecode
    have hm : ofOctets? (d.take bufferSize) = some ⟨d.take bufferSize, header⟩ := by
      rw [ofOctets?, hdecode]
      rfl
    exact ⟨⟨_, header⟩, (replyIn?_eq_some_iff hvalid).mpr ⟨h, rfl, hm⟩⟩

/-- A datagram that is no reply to a request. -/
def Stray (r : Request) (a : Incoming) : Prop := ∃ d, a.item = .ok d ∧ ¬ IsReply r d

/-- Exactly the strays are passed over. -/
theorem ignored_eq (hvalid : r.name.Valid) : Ignored r.message = Stray r := by
  funext a
  unfold Ignored Stray
  simp only [← exists_replyIn?_iff hvalid, not_exists, ← ne_eq, ← Option.eq_none_iff_forall_ne_some]

/-- After a request was sent completely, the first arrival that is no stray decides: a reply to the
request is returned, as far as the buffer has it, and a failure ends the exchange. Without one it
never ends. -/
theorem overDatagrams_decided (hvalid : r.name.Valid)
    (hsent : s.send r.octets = .ok r.octets.length) (w : World) :
    (∀ reply n es, overDatagrams s r w = ⟨.returned (.ok reply), n, es⟩ ↔
      es = [⟨w.now, .sent r.octets⟩] ∧ ∃ a d, Comes (Stray r) (s.arrivals r.octets) n a ∧
        a.item = .ok d ∧ IsReply r d ∧ reply.octets = d.take bufferSize ∧
        ofOctets? reply.octets = some reply) ∧
    (∀ failure n es, overDatagrams s r w = ⟨.returned (.error failure), n, es⟩ ↔
      es = [⟨w.now, .sent r.octets⟩] ∧
        ∃ a, Comes (Stray r) (s.arrivals r.octets) n a ∧ a.item = .error failure) ∧
    ∀ n es, overDatagrams s r w = ⟨.stalled, n, es⟩ ↔
      es = [⟨w.now, .sent r.octets⟩] ∧ n = duration (s.arrivals r.octets) ∧
        ∀ a ∈ s.arrivals r.octets, Stray r a := by
  refine ⟨?_, ?_, ?_⟩
  · intro reply n es
    rw [overDatagrams_eq_iff hsent, receive_ok_iff, ignored_eq hvalid]
    simp only [replyIn?_eq_some_iff hvalid, true_and]
  · intro failure n es
    rw [overDatagrams_eq_iff hsent, receive_error_iff, ignored_eq hvalid]
    simp only [true_and]
  · intro n es
    rw [overDatagrams_eq_iff hsent, receive_stalled_iff, ignored_eq hvalid]
    simp only [true_and]

theorem overDatagrams_decided_stray : asking.name.Valid ∧
    straySocket.send asking.octets = .ok asking.octets.length ∧
    ∀ w, overDatagrams straySocket asking w =
      ⟨.returned (.ok ⟨replyWithId 7, { asking.header with flags := 0x81, moreFlags := 0x80 }⟩), 2,
        [⟨w.now, .sent asking.octets⟩]⟩ := by
  refine ⟨valid_asking, rfl, ?_⟩
  intro w
  apply ((overDatagrams_decided valid_asking rfl w).1 _ _ _).mpr
  refine ⟨rfl, ⟨1, .ok (replyWithId 7)⟩, replyWithId 7, ?_, rfl, isReply_replyWithId, ?_, rfl⟩
  · refine ⟨[⟨1, .ok (replyWithId 8)⟩], [], rfl, ?_, rfl⟩
    intro p hp
    rw [List.mem_singleton.mp hp]
    refine ⟨replyWithId 8, rfl, ?_⟩
    intro hreply
    have hid : At (replyWithId 8) 0 (wordOctets 8) := ⟨_, rfl⟩
    exact absurd (wordOctets_inj.mp (hid.eq hreply.id rfl)) (by decide)
  · decide

end HostLookup.Exchange
