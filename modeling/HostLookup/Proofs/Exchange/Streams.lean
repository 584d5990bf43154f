import HostLookup.Proofs.Exchange.Datagrams
import HostLookup.Proofs.Message.Replies
import HostLookup.Proofs.Name.Hosts

/-!
Messages over a stream. A stream carries messages behind their lengths and is read in chunks; what is
found in its octets does not depend on where they are cut. So a stream brings the same reply as
datagrams with the same messages.
-/
set_option autoImplicit false

namespace HostLookup.Exchange

open Activity

variable {request : Message} {os more m rest : Octets}

theorem takeFrame_append (h : takeFrame os = some (m, rest)) (more : Octets) :
    takeFrame (os ++ more) = some (m, rest ++ more) := by
  match os, h with
  | high :: low :: tail, h =>
    simp only [takeFrame] at h
    split at h
    · rename_i hle
      cases h
      have hlen : (joinOctets high low).toNat ≤ (tail ++ more).length := by
        rw [List.length_append]
        omega
      simp only [List.cons_append, takeFrame]
      rw [if_pos hlen, List.take_append_of_le_length hle, List.drop_append_of_le_length hle]
    · cases h

theorem takeFrame_framed (h : m.length < 65536) (rest : Octets) :
    takeFrame (Request.framed m ++ rest) = some (m, rest) := by
  have hn : (UInt16.ofNat m.length).toNat = m.length := UInt16.toNat_ofNat_of_lt' h
  have hjoin := joinOctets_splitWord (UInt16.ofNat m.length)
  simp only [Request.framed, wordOctets, List.cons_append, List.nil_append, takeFrame]
  rw [hjoin, hn]
  simp

theorem scan_of_waiting (h : takeFrame os = none) : scan request os = .waiting os := by
  rw [scan]
  split
  · rfl
  · rename_i hsome
    rw [h] at hsome
    cases hsome

theorem scan_of_frame (h : takeFrame os = some (m, rest)) : scan request os =
    match Message.ofOctets? m with
    | none => .short
    | some reply => if reply.answers request then .replied reply else scan request rest := by
  rw [scan]
  split
  · rename_i hnone
    rw [h] at hnone
    cases hnone
  · rename_i m' rest' hsome
    rw [h] at hsome
    cases hsome
    rfl

theorem takeFrame_of_waiting {begun : Octets} (h : scan request os = .waiting begun) :
    takeFrame begun = none := by
  fun_induction scan request os with
  | case1 os hnone =>
    cases h
    exact hnone
  | case2 => cases h
  | case3 => cases h
  | case4 os m rest _ _ _ _ _ ih => exact ih h

/-- What was found stays found when more octets come, and the octets that were begun go on. -/
theorem scan_append (os more : Octets) : scan request (os ++ more) =
    match scan request os with
    | .waiting begun => scan request (begun ++ more)
    | found => found := by
  fun_induction scan request os with
  | case1 os hnone => rfl
  | case2 os m rest hframe hm =>
    rw [scan_of_frame (takeFrame_append hframe more), hm]
  | case3 os m rest hframe reply hm ha =>
    rw [scan_of_frame (takeFrame_append hframe more), hm]
    simp [ha]
  | case4 os m rest hframe reply hm ha _ ih =>
    rw [scan_of_frame (takeFrame_append hframe more), hm]
    simpa [ha] using ih

/-- The octets of a stream begin with some, however they are cut into chunks. -/
def Carries (arrivals : List (Arrival Chunk)) (os : Octets) : Prop :=
  ∃ chunks : List Octets, chunks.map Chunk.octets <+: arrivals.map Arrival.item ∧
    os <+: chunks.flatten

theorem readReply_octets {a : Arrival Chunk} {arrivals : List (Arrival Chunk)} {begun : Octets}
    {w : World} (h : a.item = .octets os) : readReply request begun (a :: arrivals) w =
      ((match scan request (begun ++ os) with
        | .replied reply => Pure.pure (.ok reply)
        | .short => Pure.pure (.error shortMessage)
        | .waiting begun => readReply request begun arrivals : Activity _)
      (w.after a.delay [])).behind a.delay [] := by
  obtain ⟨delay, item⟩ := a
  obtain rfl : item = .octets os := h
  rw [readReply]
  exact bind_of_returned rfl

/-- A reply that is found in all the octets is found wherever they are cut. Before the first chunk,
and between two of them, a message is begun at most. -/
theorem readReply_chunks {chunks : List Octets} {begun : Octets} {arrivals : List (Arrival Chunk)}
    {reply : Message} (hbegun : takeFrame begun = none)
    (hchunks : chunks.map Chunk.octets <+: arrivals.map Arrival.item)
    (hfound : scan request (begun ++ chunks.flatten) = .replied reply) (w : World) :
    (readReply request begun arrivals w).ending = .returned (.ok reply) := by
  induction chunks generalizing begun arrivals w with
  | nil =>
    rw [List.flatten_nil, List.append_nil, scan_of_waiting hbegun] at hfound
    cases hfound
  | cons c chunks ih =>
    cases arrivals with
    | nil => simp at hchunks
    | cons a arrivals =>
      rw [List.map_cons, List.map_cons, List.cons_prefix_cons] at hchunks
      obtain ⟨hitem, hchunks⟩ := hchunks
      rw [List.flatten_cons, ← List.append_assoc, scan_append] at hfound
      rw [readReply_octets hitem.symm]
      cases hscan : scan request (begun ++ c) with
      | replied found =>
        rw [hscan] at hfound
        cases hfound
        rfl
      | short =>
        rw [hscan] at hfound
        cases hfound
      | waiting begun' =>
        rw [hscan] at hfound
        exact ih (takeFrame_of_waiting hscan) hchunks hfound _

theorem readReply_of_carries {arrivals : List (Arrival Chunk)} {reply : Message}
    (h : Carries arrivals os) (hfound : scan request os = .replied reply) (w : World) :
    (readReply request [] arrivals w).ending = .returned (.ok reply) := by
  obtain ⟨chunks, hchunks, rest, hrest⟩ := h
  apply readReply_chunks rfl hchunks
  rw [List.nil_append, ← hrest, scan_append, hfound]

/-- A message that is a reply. -/
def Replies (request : Message) (m : Octets) : Prop :=
  ∃ reply, Message.ofOctets? m = some reply ∧ reply.answers request = true

theorem replyIn?_of_length_le (h : m.length ≤ bufferSize) :
    replyIn? request m = (Message.ofOctets? m).filter fun reply => reply.answers request := by
  rw [replyIn?, List.take_of_length_le h]

theorem isSome_replyIn?_iff (h : m.length ≤ bufferSize) :
    (replyIn? request m).isSome = true ↔ Replies request m := by
  rw [replyIn?_of_length_le h]
  unfold Replies
  cases Message.ofOctets? m with
  | none => simp
  | some reply => simp [Option.filter]

/-- Messages that are no reply are scanned over, if they have a header. -/
theorem scan_framed {messages : List Octets}
    (h : ∀ m ∈ messages, Header.size ≤ m.length ∧ m.length < 65536 ∧ ¬ Replies request m)
    (rest : Octets) :
    scan request (messages.flatMap Request.framed ++ rest) = scan request rest := by
  induction messages with
  | nil => rfl
  | cons m messages ih =>
    obtain ⟨hheader, hlength, hno⟩ := h m List.mem_cons_self
    have hsome : (Header.decode m).isSome = true := (Header.decode_isSome_iff m).mpr hheader
    obtain ⟨⟨header, body⟩, hdecode⟩ := Option.isSome_iff_exists.mp hsome
    have hmessage : Message.ofOctets? m = some ⟨m, header⟩ := by
      rw [Message.ofOctets?, hdecode]
      rfl
    have hanswers : ¬ (Message.mk m header).answers request = true :=
      fun ha => hno ⟨_, hmessage, ha⟩
    rw [List.flatMap_cons, List.append_assoc, scan_of_frame (takeFrame_framed hlength _), hmessage]
    dsimp only
    rw [if_neg hanswers]
    exact ih fun n hn => h n (List.mem_cons_of_mem m hn)

theorem scan_reply {reply : Message} (hm : Message.ofOctets? m = some reply)
    (hr : reply.answers request = true) (hlength : m.length < 65536) (rest : Octets) :
    scan request (Request.framed m ++ rest) = .replied reply := by
  rw [scan_of_frame (takeFrame_framed hlength _), hm]
  exact if_pos hr

/-- A datagram socket that takes a request whole and then brings messages, each as a datagram. -/
structure BringsDatagrams (s : DatagramSocket) (r : Request) (messages : List Octets) : Prop where
  sent : s.send r.octets = .ok r.octets.length
  arrivals : messages.map Except.ok <+: (s.arrivals r.octets).map Arrival.item

/-- A stream that takes a request whole and then brings messages, each behind its length. -/
structure BringsFrames (s : StreamSocket) (r : Request) (messages : List Octets) : Prop where
  accepted : ∀ limit, s.writeLimit = some limit →
    (Request.framed r.octets).length ≤ limit.accepted
  flushed : s.flushFailure = none
  arrivals : Carries (s.arrivals r.octets) (messages.flatMap Request.framed)

theorem write_of_accepted {s : StreamSocket} (hne : os ≠ [])
    (h : ∀ limit, s.writeLimit = some limit → os.length ≤ limit.accepted) (w : World) :
    s.write os w = ⟨.returned (.ok ()), 0, [⟨w.now, .sent os⟩]⟩ := by
  have hempty : os.isEmpty = false := List.isEmpty_eq_false_iff.mpr hne
  unfold StreamSocket.write
  cases hlimit : s.writeLimit with
  | none =>
    dsimp only
    rw [hempty]
    rfl
  | some limit =>
    have hle := h limit hlimit
    have hdone : ¬ limit.accepted < os.length := Nat.not_lt.mpr hle
    simp only [List.take_of_length_le hle, hempty, if_neg hdone]
    rfl

theorem overStream_of_accepted {s : StreamSocket} {r : Request}
    (hwrite : ∀ limit, s.writeLimit = some limit →
      (Request.framed r.octets).length ≤ limit.accepted)
    (hflush : s.flushFailure = none) (w : World) : overStream s r w =
      (readReply r.message [] (s.arrivals r.octets)
        (w.after 0 [⟨w.now, .sent (Request.framed r.octets)⟩])).behind 0
        [⟨w.now, .sent (Request.framed r.octets)⟩] := by
  have hne : Request.framed r.octets ≠ [] := List.cons_ne_nil _ _
  unfold overStream StreamSocket.flush
  rw [bind_of_returned (write_of_accepted hne hwrite w), hflush]
  refine congrArg (Report.behind 0 _) ((bind_of_returned rfl).trans ?_)
  simp

/-- The first of some messages that is a reply. -/
theorem exists_first_reply {messages : List Octets} (h : ∃ m ∈ messages, Replies request m) :
    ∃ before m after, messages = before ++ m :: after ∧ Replies request m ∧
      ∀ b ∈ before, ¬ Replies request b := by
  classical
  obtain ⟨m, hm, hr⟩ := h
  have hsome : (messages.find? fun m => decide (Replies request m)).isSome = true :=
    List.find?_isSome.mpr ⟨m, hm, decide_eq_true hr⟩
  obtain ⟨first, hfirst⟩ := Option.isSome_iff_exists.mp hsome
  obtain ⟨hr, before, after, hsplit, hbefore⟩ := List.find?_eq_some_iff_append.mp hfirst
  refine ⟨before, first, after, hsplit, of_decide_eq_true hr, ?_⟩
  intro b hb
  simpa using hbefore b hb

variable {r : Request} {before after : List Octets} {reply : Message}

theorem overDatagrams_first {s : DatagramSocket}
    (hs : BringsDatagrams s r (before ++ m :: after))
    (hbefore : ∀ b ∈ before, b.length ≤ bufferSize ∧ ¬ Replies r.message b)
    (hlength : m.length ≤ bufferSize) (hm : Message.ofOctets? m = some reply)
    (hr : reply.answers r.message = true) (w : World) :
    (overDatagrams s r w).ending = .returned (.ok reply) := by
  obtain ⟨rest, hrest⟩ := hs.arrivals
  rw [List.map_append, List.append_assoc, List.map_cons, List.cons_append] at hrest
  obtain ⟨passed, others, hsplit, hpassed, hothers⟩ := List.map_eq_append_iff.mp hrest.symm
  obtain ⟨a, later, rfl, ha, _⟩ := List.map_eq_cons_iff.mp hothers
  have hcomes : Comes (Ignored r.message) (s.arrivals r.octets) (duration (passed ++ [a])) a := by
    refine ⟨passed, later, hsplit, ?_, rfl⟩
    intro p hp
    have hitem : p.item ∈ before.map Except.ok := hpassed ▸ List.mem_map_of_mem hp
    obtain ⟨b, hb, hitem⟩ := List.mem_map.mp hitem
    obtain ⟨hle, hno⟩ := hbefore b hb
    refine ⟨b, hitem.symm, ?_⟩
    rw [← isSome_replyIn?_iff hle] at hno
    exact Option.not_isSome_iff_eq_none.mp hno
  have hreply : replyIn? r.message m = some reply := by
    rw [replyIn?_of_length_le hlength, hm]
    simp [Option.filter, hr]
  rw [overDatagrams_of_sent hs.sent, receive_ok_iff.mpr ⟨rfl, a, m, hcomes, ha, hreply⟩]
  rfl

theorem overStream_first {s : StreamSocket} (hs : BringsFrames s r (before ++ m :: after))
    (hbefore : ∀ b ∈ before, Header.size ≤ b.length ∧ b.length < 65536 ∧ ¬ Replies r.message b)
    (hlength : m.length < 65536) (hm : Message.ofOctets? m = some reply)
    (hr : reply.answers r.message = true) (w : World) :
    (overStream s r w).ending = .returned (.ok reply) := by
  have hscan : scan r.message ((before ++ m :: after).flatMap Request.framed) = .replied reply := by
    rw [List.flatMap_append, scan_framed hbefore, List.flatMap_cons]
    exact scan_reply hm hr hlength _
  rw [overStream_of_accepted hs.accepted hs.flushed]
  exact readReply_of_carries hs.arrivals hscan _

/-- Of messages that have a header and fit the buffer, datagrams and a stream bring the same reply,
octet for octet: the first one there is, however the stream is cut into chunks. -/
theorem exchanges_agree {messages : List Octets} {d : DatagramSocket} {s : StreamSocket}
    (hsize : ∀ m ∈ messages, Header.size ≤ m.length ∧ m.length ≤ bufferSize)
    (hreply : ∃ m ∈ messages, Replies r.message m) (hd : BringsDatagrams d r messages)
    (hs : BringsFrames s r messages) :
    ∃ before reply after, messages = before ++ reply.octets :: after ∧
      (∀ b ∈ before, ¬ Replies r.message b) ∧ Message.ofOctets? reply.octets = some reply ∧
      reply.answers r.message = true ∧
      ∀ w, (overDatagrams d r w).ending = .returned (.ok reply) ∧
        (overStream s r w).ending = .returned (.ok reply) := by
  obtain ⟨before, m, after, rfl, ⟨reply, hm, hr⟩, hbefore⟩ := exists_first_reply hreply
  have hfits : ∀ b ∈ before ++ m :: after, Header.size ≤ b.length ∧ b.length < 65536 := by
    intro b hb
    obtain ⟨hheader, hle⟩ := hsize b hb
    refine ⟨hheader, ?_⟩
    unfold bufferSize at hle
    omega
  have hoctets : reply.octets = m := by
    obtain ⟨_, _, rfl⟩ := Option.map_eq_some_iff.mp hm
    rfl
  subst hoctets
  have hmem : reply.octets ∈ before ++ reply.octets :: after := by simp
  have hbefore' : ∀ b ∈ before, b ∈ before ++ reply.octets :: after :=
    fun b hb => List.mem_append_left _ hb
  refine ⟨before, reply, after, rfl, hbefore, hm, hr, ?_⟩
  intro w
  constructor
  · apply overDatagrams_first hd _ (hsize _ hmem).2 hm hr
    intro b hb
    exact ⟨(hsize b (hbefore' b hb)).2, hbefore b hb⟩
  · apply overStream_first hs _ (hfits _ hmem).2 hm hr
    intro b hb
    exact ⟨(hfits b (hbefore' b hb)).1, (hfits b (hbefore' b hb)).2, hbefore b hb⟩

/-- A request for the IPv4 addresses of `example`. -/
def asking : Request := ⟨7, ⟨[[101, 120, 97, 109, 112, 108, 101]]⟩, .a⟩

/-- A message that would be a reply to it under the right identity. -/
def replyWithId (id : UInt16) : Octets :=
  Header.encode { asking.header with id := id, flags := 0x81, moreFlags := 0x80 } ++
    asking.question.encode

/-- A socket that brings a stray datagram before the reply. -/
def straySocket : DatagramSocket :=
  ⟨fun os => .ok os.length, fun _ => [⟨1, .ok (replyWithId 8)⟩, ⟨1, .ok (replyWithId 7)⟩]⟩

/-- A stream that brings the same messages, cut within the length of each. -/
def cutStream : StreamSocket where
  writeLimit := none
  flushFailure := none
  arrivals _ :=
    let os := [replyWithId 8, replyWithId 7].flatMap Request.framed
    [⟨0, .octets (os.take 1)⟩, ⟨1, .octets ((os.drop 1).take 27)⟩, ⟨1, .octets (os.drop 28)⟩]
  handshake _ := ⟨0, .never⟩

theorem valid_asking : asking.name.Valid := by
  have hname : DomainName.ofHost? "example" = some ("example.", asking.name) := by decide +kernel
  exact DomainName.valid_of_ofHost? hname

theorem isReply_replyWithId : Message.IsReply asking (replyWithId 7) where
  header := by decide
  id := ⟨_, rfl⟩
  reply := ⟨0x81, ⟨_, rfl⟩, by decide⟩
  questions := ⟨_, rfl⟩
  question :=
    ⟨asking.name, _, .wire valid_asking ⟨_, rfl⟩, by decide, by decide, ⟨[], rfl⟩⟩

theorem replies_replyWithId : Replies asking.message (replyWithId 7) :=
  ⟨⟨replyWithId 7, { asking.header with flags := 0x81, moreFlags := 0x80 }⟩, rfl,
    (Message.answers_iff valid_asking rfl).mpr isReply_replyWithId⟩

theorem brings_straySocket : BringsDatagrams straySocket asking [replyWithId 8, replyWithId 7] :=
  ⟨rfl, List.prefix_refl _⟩

theorem brings_cutStream : BringsFrames cutStream asking [replyWithId 8, replyWithId 7] where
  accepted := nofun
  flushed := rfl
  arrivals := by
    let os := [replyWithId 8, replyWithId 7].flatMap Request.framed
    exact ⟨[os.take 1, (os.drop 1).take 27, os.drop 28], List.prefix_refl _, List.prefix_refl _⟩

theorem exchanges_agree_cut :
    (∀ m ∈ [replyWithId 8, replyWithId 7], Header.size ≤ m.length ∧ m.length ≤ bufferSize) ∧
      (∃ m ∈ [replyWithId 8, replyWithId 7], Replies asking.message m) ∧
      BringsDatagrams straySocket asking [replyWithId 8, replyWithId 7] ∧
      BringsFrames cutStream asking [replyWithId 8, replyWithId 7] ∧
      ∃ before reply after, [replyWithId 8, replyWithId 7] = before ++ reply.octets :: after ∧
        (∀ b ∈ before, ¬ Replies asking.message b) ∧
        Message.ofOctets? reply.octets = some reply ∧ reply.answers asking.message = true ∧
        ∀ w, (overDatagrams straySocket asking w).ending = .returned (.ok reply) ∧
          (overStream cutStream asking w).ending = .returned (.ok reply) := by
  have hsize : ∀ m ∈ [replyWithId 8, replyWithId 7],
      Header.size ≤ m.length ∧ m.length ≤ bufferSize := by decide
  have hreply : ∃ m ∈ [replyWithId 8, replyWithId 7], Replies asking.message m :=
    ⟨replyWithId 7, by simp, replies_replyWithId⟩
  exact ⟨hsize, hreply, brings_straySocket, brings_cutStream,
    exchanges_agree hsize hreply brings_straySocket brings_cutStream⟩

end HostLookup.Exchange
