import HostLookup.Proofs.Exchange.Datagrams
import HostLookup.Proofs.Query.Conduct

/-!
Where the addresses of a query come from. Whatever way a reply is received, it answers the request;
a query that brings addresses has received one without error, and the addresses are those of its
answer section.
-/
set_option autoImplicit false

namespace HostLookup

open Activity

namespace Exchange

variable {request reply : Message} {w : World} {n : Nat} {es : List Event}

theorem answers_of_replyIn? {d : Octets} (h : replyIn? request d = some reply) :
    reply.answers request = true :=
  (Option.filter_eq_some_iff.mp h).2

theorem answers_of_scan {os : Octets} (h : scan request os = .replied reply) :
    reply.answers request = true := by
  fun_induction scan request os with
  | case1 => cases h
  | case2 => cases h
  | case3 _ _ _ _ _ _ hanswers =>
    cases h
    exact hanswers
  | case4 _ _ _ _ _ _ _ _ ih => exact ih h

theorem answers_of_receive {arrivals : List Incoming}
    (h : receive request arrivals w = ⟨.returned (.ok reply), n, es⟩) :
    reply.answers request = true := by
  obtain ⟨_, _, _, _, _, hreply⟩ := receive_ok_iff.mp h
  exact answers_of_replyIn? hreply

theorem answers_of_readReply {begun : Octets} {arrivals : List (Arrival Chunk)}
    (h : readReply request begun arrivals w = ⟨.returned (.ok reply), n, es⟩) :
    reply.answers request = true := by
  -- On the arrivals, whatever was begun to be read before.
  induction arrivals generalizing begun w n es with
  | nil => cases h
  | cons a arrivals ih =>
    obtain ⟨_, _, _, _, _, _, hnext, _, _⟩ := bind_returned h
    cases hitem : a.item with
    | failed failure =>
      rw [hitem] at hnext
      cases hnext
    | closed =>
      rw [hitem] at hnext
      cases hnext
    | octets os =>
      rw [hitem] at hnext
      dsimp only at hnext
      cases hscan : scan request (begun ++ os) with
      | replied found =>
        rw [hscan] at hnext
        cases hnext
        exact answers_of_scan hscan
      | short =>
        rw [hscan] at hnext
        cases hnext
      | waiting more =>
        rw [hscan] at hnext
        exact ih hnext

theorem answers_of_run {c : Connection} {r : Request}
    (h : run c r w = ⟨.returned (.ok reply), n, es⟩) : reply.answers r.message = true := by
  cases c with
  | datagram s =>
    rw [run, overDatagrams] at h
    cases hsend : s.send r.octets with
    | error failure =>
      rw [hsend] at h
      cases h
    | ok sent =>
      rw [hsend] at h
      obtain ⟨_, _, _, _, _, _, hreceive, _, _⟩ := bind_returned h
      by_cases hshort : sent ≠ r.octets.length
      · rw [if_pos hshort] at hreceive
        cases hreceive
      · rw [if_neg hshort] at hreceive
        exact answers_of_receive hreceive
  | stream s =>
    rw [run, overStream] at h
    obtain ⟨written, _, _, _, _, _, hwritten, _, _⟩ := bind_returned h
    cases written with
    | error failure => cases hwritten
    | ok _ =>
      obtain ⟨flushed, _, _, _, _, _, hflushed, _, _⟩ := bind_returned hwritten
      cases flushed with
      | error failure => cases hflushed
      | ok _ => exact answers_of_readReply hflushed

end Exchange

namespace Query

variable {cx : Context} {deadline : Option Nat} {server : Endpoint} {r : Request} {reply : Message}
variable {w : World} {n : Nat} {es : List Event}

/-- A reply without error to a request is among the events. -/
structure Brings (server : Endpoint) (r : Request) (reply : Message) (es : List Event) : Prop where
  mem_replies : (server, reply) ∈ Trace.replies es
  answers : reply.answers r.message = true
  noError : reply.header.rcode = .noError

theorem Brings.mono {fs : List Event} (h : Brings server r reply es) (hsub : es ⊆ fs) :
    Brings server r reply fs where
  mem_replies := by
    obtain ⟨e, he, hdeed⟩ := List.mem_filterMap.mp h.mem_replies
    exact List.mem_filterMap.mpr ⟨e, hsub he, hdeed⟩
  answers := h.answers
  noError := h.noError

theorem classify_eq_ok_iff {m : Message} :
    classify m = .ok reply ↔ m = reply ∧ m.header.rcode = .noError := by
  by_cases h : m.header.rcode = .noError
  · simp [classify, h]
  · obtain ⟨d, hd⟩ := classify_of_ne h
    simp [hd, h]

theorem exchange_brings {c : Connection}
    (h : exchange cx deadline server r c w = ⟨.returned (.ok reply), n, es⟩) :
    Brings server r reply es := by
  obtain ⟨result, m, es, k, fs, hg, hnext, rfl, rfl⟩ := bind_returned h
  refine Brings.mono ?_ (List.subset_append_right es fs)
  cases result with
  | none => cases (pure_returned hnext).1
  | some received =>
    cases received with
    | error failure => cases (pure_returned hnext).1
    | ok found =>
      obtain ⟨_, _, _, _, _, hr, hp, _, rfl⟩ := bind_returned hnext
      obtain ⟨hclassify, _, rfl⟩ := pure_returned hp
      obtain ⟨rfl, hcode⟩ := classify_eq_ok_iff.mp hclassify.symm
      cases hr
      exact ⟨List.mem_singleton_self _, Exchange.answers_of_run (guarded_returned_some hg).1, hcode⟩

theorem ask_brings {net : Network} {protocol : Protocol}
    (h : ask net cx deadline protocol server r w = ⟨.returned (.ok reply), n, es⟩) :
    Brings server r reply es := by
  rw [ask_eq] at h
  obtain ⟨dialed, _, ds, _, fs, _, hdialed, _, rfl⟩ := bind_returned h
  cases dialed with
  | none => cases (pure_returned hdialed).1
  | some result =>
    cases result with
    | error failure => cases (pure_returned hdialed).1
    | ok c =>
      obtain ⟨secured, _, es, _, gs, _, hsecured, _, rfl⟩ := bind_returned hdialed
      cases secured with
      | error d => cases (pure_returned hsecured).1
      | ok _ =>
        have htalk := (exchange_brings hsecured).mono (List.subset_append_right es gs)
        exact htalk.mono (List.subset_append_right ds (es ++ gs))

theorem run_brings {net : Network} {id : UInt16} {config : Config} {target : Target} {s : Server}
    {type : RecordType} {addrs : List Address}
    (h : run net id config cx target s type w = ⟨.returned (.ok addrs), n, es⟩) :
    ∃ reply, Brings (s.endpoint config.protocol) ⟨id, target.name, type⟩ reply es ∧
      addrs = reply.addresses := by
  obtain ⟨_, x, fs, _, hask, hconclude, rfl⟩ := run_returned h
  cases x with
  | error d => cases hconclude
  | ok reply =>
    cases hconclude
    exact ⟨reply, (ask_brings hask).mono (List.subset_cons_self _ fs), rfl⟩

/-- A query that returns accepted one reply, whose addresses it brings, or none at all. -/
theorem run_accepted {net : Network} {id : UInt16} {config : Config} {target : Target} {s : Server}
    {type : RecordType} {answer : Answer}
    (h : run net id config cx target s type w = ⟨.returned answer, n, es⟩) :
    (∃ f, answer = .error f ∧ Trace.accepted es = []) ∨
      ∃ reply, answer = .ok reply.addresses ∧
        Trace.accepted es = [(s.endpoint config.protocol, reply)] ∧
        reply.answers (⟨id, target.name, type⟩ : Request).message = true := by
  obtain ⟨_, x, _, hx, rfl⟩ := run_heard h
  cases hx with
  | nothing hes => exact .inl ⟨_, rfl, Trace.accepted_eq_nil hes⟩
  | @reply m n t es hes _ =>
    have hreplies : Trace.replies (es ++ [⟨t, .replied (s.endpoint config.protocol) m⟩]) =
        [(s.endpoint config.protocol, m)] := by
      rw [Trace.replies_append, Trace.replies_eq_nil hes]
      rfl
    rw [Trace.accepted, hreplies]
    by_cases hm : m.header.rcode = .noError
    · have hclassify : classify m = .ok m := classify_eq_ok_iff.mpr ⟨rfl, hm⟩
      rw [hclassify] at h ⊢
      obtain ⟨reply, hbrings, _⟩ := run_brings h
      have hmem := hbrings.mem_replies
      rw [hreplies, List.mem_singleton, Prod.mk.injEq] at hmem
      obtain ⟨-, rfl⟩ := hmem
      exact .inr ⟨reply, rfl, by simp [hm], hbrings.answers⟩
    · obtain ⟨d, hd⟩ := classify_of_ne hm
      rw [hd]
      exact .inl ⟨_, rfl, by simp [hm]⟩

end Query

end HostLookup
