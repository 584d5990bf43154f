import HostLookup.Proofs.Activity.Interruption
import HostLookup.Query.Basic

/-!
Laws that a query follows from its first step to its last: what it may do, when it is over, and
where it can leave the clock's range. Each step of a query that can take time is guarded, so what
holds of guarded work and is kept in sequence holds of the query, whatever the network does.
-/
set_option autoImplicit false

namespace HostLookup

open Activity

/-- Laws that waiting, shaking hands and sending follow. -/
structure Permits (R : Law) : Prop extends Composes R where
  sleep : ∀ duration, Obeys R (Activity.sleep duration)
  stall : ∀ {α : Type}, Obeys R (Activity.stall : Activity α)
  shook : Obeys R (Activity.record .shook)
  sent : ∀ os, Obeys R (Activity.record (.sent os))

namespace Exchange

variable {R : Law} (hR : Permits R)
include hR

theorem receive_obeys (request : Message) (arrivals : List (Arrival (Except IoFailure Octets))) :
    Obeys R (receive request arrivals) := by
  induction arrivals with
  | nil => exact hR.stall
  | cons a arrivals ih =>
    rw [receive]
    apply Obeys.bind hR.toComposes (hR.sleep a.delay)
    intro _
    split
    · exact .pure hR.toComposes _
    · split
      · exact .pure hR.toComposes _
      · exact ih

theorem overDatagrams_obeys (s : DatagramSocket) (r : Request) :
    Obeys R (overDatagrams s r) := by
  unfold overDatagrams
  split
  · exact .pure hR.toComposes _
  · apply Obeys.bind hR.toComposes (hR.sent _)
    intro _
    split
    · exact .pure hR.toComposes _
    · exact receive_obeys hR _ _

theorem readReply_obeys (request : Message) (begun : Octets) (arrivals : List (Arrival Chunk)) :
    Obeys R (readReply request begun arrivals) := by
  induction arrivals generalizing begun with
  | nil => exact hR.stall
  | cons a arrivals ih =>
    rw [readReply]
    apply Obeys.bind hR.toComposes (hR.sleep a.delay)
    intro _
    split
    · exact .pure hR.toComposes _
    · exact .pure hR.toComposes _
    · split
      · exact .pure hR.toComposes _
      · exact .pure hR.toComposes _
      · exact ih _

theorem write_obeys (s : StreamSocket) (os : Octets) : Obeys R (s.write os) := by
  unfold StreamSocket.write
  cases s.writeLimit with
  | none =>
    dsimp only
    split
    · exact .pure hR.toComposes _
    · exact .bind hR.toComposes (hR.sent _) fun _ => .pure hR.toComposes _
  | some limit =>
    dsimp only
    split
    · exact .pure hR.toComposes _
    · exact .bind hR.toComposes (hR.sent _) fun _ => .pure hR.toComposes _

theorem flush_obeys (s : StreamSocket) : Obeys R s.flush := by
  unfold StreamSocket.flush
  split <;> exact .pure hR.toComposes _

theorem overStream_obeys (s : StreamSocket) (r : Request) : Obeys R (overStream s r) := by
  unfold overStream
  apply Obeys.bind hR.toComposes (write_obeys hR s _)
  intro written
  split
  · exact .pure hR.toComposes _
  · apply Obeys.bind hR.toComposes (flush_obeys hR s)
    intro flushed
    split
    · exact .pure hR.toComposes _
    · exact readReply_obeys hR _ _ _

theorem run_obeys (c : Connection) (r : Request) : Obeys R (run c r) := by
  unfold run
  split
  · exact overDatagrams_obeys hR _ r
  · exact overStream_obeys hR _ r

end Exchange

theorem dial_obeys {R : Law} (hR : Permits R) {transport : Transport} {server : Endpoint}
    (hd : Obeys R (Activity.record (.dialed transport server))) (net : Network) :
    Obeys R (net.dial transport server) := by
  unfold Network.dial
  refine .bind hR.toComposes (fun w => hR.nothing w) fun w => ?_
  apply Obeys.bind hR.toComposes hd
  intro _
  apply Obeys.bind hR.toComposes (hR.sleep _)
  intro _
  split
  · exact .pure hR.toComposes _
  · exact .pure hR.toComposes _
  · exact hR.stall

theorem shakeHands_obeys {R : Law} (hR : Permits R) (s : StreamSocket) (server : Address) :
    Obeys R (s.shakeHands server) := by
  unfold StreamSocket.shakeHands
  apply Obeys.bind hR.toComposes hR.shook
  intro _
  apply Obeys.bind hR.toComposes (hR.sleep _)
  intro _
  split
  · exact .bind hR.toComposes hR.shook fun _ => .pure hR.toComposes _
  · exact .bind hR.toComposes hR.shook fun _ => .pure hR.toComposes _
  · exact hR.stall

namespace Query

/-- One exchange over a connection that is ready for use. -/
def exchange (cx : Context) (deadline : Option Nat) (server : Endpoint) (r : Request)
    (c : Connection) : Activity (Except Detail Message) := do
  let reply ← Activity.guarded cx deadline (Exchange.run c r)
  match settle transport interrupted reply with
  | .error d => return .error d
  | .ok reply =>
    Activity.record (.replied server reply)
    return classify reply

/-- What is done with a connection: it is encrypted if need be, and used for one exchange. -/
def talk (cx : Context) (deadline : Option Nat) (protocol : Protocol) (server : Endpoint)
    (r : Request) (c : Connection) : Activity (Except Detail Message) := do
  match ← secure cx deadline protocol server.address c with
  | .error d => return .error d
  | .ok () => exchange cx deadline server r c

/-- What follows dialing a server: talking with it, if there is a connection. -/
def proceed (cx : Context) (deadline : Option Nat) (protocol : Protocol) (server : Endpoint)
    (r : Request) (dialed : Option (Except IoFailure Connection)) :
    Activity (Except Detail Message) :=
  match settle transport interrupted dialed with
  | .error d => Pure.pure (.error d)
  | .ok c => talk cx deadline protocol server r c

theorem ask_eq (net : Network) (cx : Context) (deadline : Option Nat) (protocol : Protocol)
    (server : Endpoint) (r : Request) :
    ask net cx deadline protocol server r =
      (Activity.guarded cx deadline (net.dial protocol.transport server) >>=
        proceed cx deadline protocol server r) := rfl

/-- Laws that talking with a server follows. -/
structure Talks (R : Law) (cx : Context) (deadline : Option Nat) (server : Endpoint) : Prop
    extends Composes R where
  shake : ∀ (s : StreamSocket) (a : Address),
    Obeys R (Activity.guarded cx deadline (s.shakeHands a))
  exchange : ∀ (c : Connection) (r : Request),
    Obeys R (Activity.guarded cx deadline (Exchange.run c r))
  replied : ∀ reply, Obeys R (Activity.record (.replied server reply))

variable {R : Law} {cx : Context} {deadline : Option Nat} {server : Endpoint}

theorem secure_obeys (hR : Talks R cx deadline server) (protocol : Protocol) (a : Address)
    (c : Connection) : Obeys R (secure cx deadline protocol a c) := by
  unfold secure
  split
  · exact .pure hR.toComposes _
  · exact .pure hR.toComposes _
  · exact .pure hR.toComposes _
  · exact .bind hR.toComposes (hR.shake _ a) fun _ => .pure hR.toComposes _

theorem exchange_obeys (hR : Talks R cx deadline server) (r : Request) (c : Connection) :
    Obeys R (exchange cx deadline server r c) := by
  unfold exchange
  apply Obeys.bind hR.toComposes (hR.exchange c r)
  intro reply
  split
  · exact .pure hR.toComposes _
  · exact .bind hR.toComposes (hR.replied _) fun _ => .pure hR.toComposes _

theorem talk_obeys (hR : Talks R cx deadline server) (protocol : Protocol) (r : Request)
    (c : Connection) : Obeys R (talk cx deadline protocol server r c) := by
  unfold talk
  apply Obeys.bind hR.toComposes (secure_obeys hR protocol _ c)
  intro secured
  split
  · exact .pure hR.toComposes _
  · exact exchange_obeys hR r c

theorem proceed_obeys (hR : Talks R cx deadline server) (protocol : Protocol) (r : Request)
    (dialed : Option (Except IoFailure Connection)) :
    Obeys R (proceed cx deadline protocol server r dialed) := by
  unfold proceed
  split
  · exact .pure hR.toComposes _
  · exact talk_obeys hR protocol r _

theorem ask_obeys (hR : Talks R cx deadline server) (net : Network) (protocol : Protocol)
    (r : Request)
    (hdial : Obeys R (Activity.guarded cx deadline (net.dial protocol.transport server))) :
    Obeys R (ask net cx deadline protocol server r) := by
  rw [ask_eq]
  exact .bind hR.toComposes hdial (proceed_obeys hR protocol r)

/-- Talking consists of shaking hands, sending and receiving. -/
inductive Speech (server : Endpoint) : Deed → Prop where
  | shook : Speech server .shook
  | sent (os : Octets) : Speech server (.sent os)
  | replied (reply : Message) : Speech server (.replied server reply)

theorem Speech.deed_ne {d e : Deed} (h : Speech server d) (he : ¬ Speech server e) : d ≠ e := by
  rintro rfl
  exact he h

/-- Dialing a server and talking with it is nothing else. -/
theorem deed_ne_of_contact {transport : Transport} {d e : Deed}
    (h : d = .dialed transport server ∨ Speech server d) (hdialed : e ≠ .dialed transport server)
    (hspeech : ¬ Speech server e) : d ≠ e := by
  rcases h with rfl | h
  · exact hdialed.symm
  · exact h.deed_ne hspeech

theorem only_record {p : Deed → Prop} {d : Deed} (h : p d) : Obeys (Only p) (record d) := by
  intro w e he
  cases List.mem_singleton.mp he
  exact h

theorem permits_only {p : Deed → Prop} (hshook : p .shook) (hsent : ∀ os, p (.sent os)) :
    Permits (Only p) where
  toComposes := only_composes p
  sleep _ _ e he := by cases he
  stall _ e he := by cases he
  shook := only_record hshook
  sent os := only_record (hsent os)

theorem talks_only {p : Deed → Prop} (h : ∀ d, Speech server d → p d) :
    Talks (Only p) cx deadline server where
  toComposes := only_composes p
  shake s a :=
    guarded_only (shakeHands_obeys (permits_only (h _ .shook) fun os => h _ (.sent os)) s a)
  exchange c r :=
    guarded_only (Exchange.run_obeys (permits_only (h _ .shook) fun os => h _ (.sent os)) c r)
  replied reply := only_record (h _ (.replied reply))

theorem permits_overflowsFor (timeout : Nat) : Permits (OverflowsFor timeout) where
  toComposes := overflowsFor_composes timeout
  sleep _ _ he := by cases he
  stall _ he := by cases he
  shook _ he := by cases he
  sent _ _ he := by cases he

theorem talks_overflowsFor (timeout : Nat) :
    Talks (OverflowsFor timeout) cx deadline server where
  toComposes := overflowsFor_composes timeout
  shake s a := guarded_overflowsFor (shakeHands_obeys (permits_overflowsFor timeout) s a)
  exchange c r := guarded_overflowsFor (Exchange.run_obeys (permits_overflowsFor timeout) c r)
  replied _ _ he := by cases he

theorem endsBy_record (d : Deed) : Obeys (EndsBy cx deadline) (record d) :=
  fun w t _ => ⟨by simp [record], Nat.le_max_left w.now t⟩

theorem talks_endsBy : Talks (EndsBy cx deadline) cx deadline server where
  toComposes := endsBy_composes cx deadline
  shake _ _ := guarded_endsBy cx deadline _
  exchange _ _ := guarded_endsBy cx deadline _
  replied _ := endsBy_record _

theorem ask_endsBy (net : Network) (cx : Context) (deadline : Option Nat) (protocol : Protocol)
    (server : Endpoint) (r : Request) :
    Obeys (EndsBy cx deadline) (ask net cx deadline protocol server r) :=
  ask_obeys talks_endsBy net protocol r (guarded_endsBy cx deadline _)

theorem ask_overflowsFor (net : Network) (cx : Context) (deadline : Option Nat)
    (protocol : Protocol) (server : Endpoint) (r : Request) (timeout : Nat) :
    Obeys (OverflowsFor timeout) (ask net cx deadline protocol server r) :=
  ask_obeys (talks_overflowsFor timeout) net protocol r <| guarded_overflowsFor <|
    dial_obeys (permits_overflowsFor timeout) (fun _ he => by cases he) net

theorem ask_only (net : Network) (cx : Context) (deadline : Option Nat) (protocol : Protocol)
    (server : Endpoint) (r : Request) :
    Obeys (Only fun d => d = .dialed protocol.transport server ∨ Speech server d)
      (ask net cx deadline protocol server r) :=
  ask_obeys (talks_only fun _ => .inr) net protocol r <| guarded_only <|
    dial_obeys (permits_only (.inr .shook) fun os => .inr (.sent os)) (only_record (.inl rfl)) net

end Query

end HostLookup
