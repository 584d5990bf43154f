import HostLookup.Proofs.Query.Conduct

/-!
Where the failure of a query comes from. A query fails in a step that was cut short, with what a
step failed with, or by the reply's response code; and a step that was cut short is what the query
fails with.
-/
set_option autoImplicit false

namespace HostLookup

open Activity

namespace Detail

variable (c : Cause) (temporary : Bool)

@[simp] theorem cause_of : (of c).cause = c := rfl
@[simp] theorem timeout_of : (of c).timeout = (c == .timeout) := rfl
@[simp] theorem temporary_of : (of c).temporary = false := rfl
@[simp] theorem cause_flagged : (flagged c temporary).cause = c := rfl
@[simp] theorem timeout_flagged : (flagged c temporary).timeout = (c == .timeout) := rfl
@[simp] theorem temporary_flagged : (flagged c temporary).temporary = temporary := rfl

end Detail

namespace Query

/-- The steps of a query that can take time. -/
inductive Step where
  | dialing
  | handshake
  | exchange
  deriving DecidableEq, Repr

/-- What a query fails with if a step of it is cut short. -/
def Step.onCut : Step → Detail
  | dialing => interrupted
  | handshake => .of .timeout
  | exchange => interrupted

@[simp] theorem Step.cause_onCut (step : Step) : step.onCut.cause = .timeout := by
  cases step <;> rfl

@[simp] theorem Step.timeout_onCut (step : Step) : step.onCut.timeout = true := by
  cases step <;> rfl

@[simp] theorem Step.temporary_onCut (step : Step) :
    step.onCut.temporary = true ↔ step = .dialing ∨ step = .exchange := by
  cases step <;> simp [onCut, interrupted]

section

variable (net : Network) (cx : Context) (deadline : Option Nat) (protocol : Protocol)
variable (server : Endpoint) (r : Request) (w : World)

/-- Asking a server gets to a step and is cut short in it. -/
inductive CutIn : Step → Prop where
  | dialing {n : Nat} {es : List Event} :
      guarded cx deadline (net.dial protocol.transport server) w = ⟨.returned none, n, es⟩ →
      CutIn .dialing
  | handshake {s : StreamSocket} {m n : Nat} {es fs : List Event} : protocol = .tls →
      guarded cx deadline (net.dial protocol.transport server) w =
        ⟨.returned (some (.ok (.stream s))), m, es⟩ →
      guarded cx deadline (s.shakeHands server.address) (w.after m es) =
        ⟨.returned none, n, fs⟩ →
      CutIn .handshake
  | exchange {c : Connection} {k m n : Nat} {ds es fs : List Event} :
      guarded cx deadline (net.dial protocol.transport server) w =
        ⟨.returned (some (.ok c)), k, ds⟩ →
      secure cx deadline protocol server.address c (w.after k ds) =
        ⟨.returned (.ok ()), m, es⟩ →
      guarded cx deadline (Exchange.run c r) ((w.after k ds).after m es) =
        ⟨.returned none, n, fs⟩ →
      CutIn .exchange

/-- What a query can fail with, if `Cut` are the steps that it can be cut short in. -/
inductive Raised (protocol : Protocol) (Cut : Step → Prop) : Detail → Prop where
  | cut {step : Step} : Cut step → (step = .handshake → protocol = .tls) →
      Raised protocol Cut step.onCut
  | transport (failure : IoFailure) : Raised protocol Cut (transport failure)
  | handshake (failure : IoFailure) : protocol = .tls →
      Raised protocol Cut (.of (.handshake failure))
  | denied : Raised protocol Cut (.of .notFound)
  | misbehaving {rcode : Rcode} : rcode ≠ .noError → rcode ≠ .nameError →
      Raised protocol Cut (.flagged (.serverMisbehaving rcode) (rcode == .serverFailure))

end

variable {net : Network} {cx : Context} {deadline : Option Nat} {protocol : Protocol}
variable {server : Endpoint} {r : Request} {w : World} {d : Detail} {n : Nat} {es : List Event}
variable {c : Connection} {Cut : Step → Prop}

namespace Raised

theorem imp {Cut' : Step → Prop} (h : Raised protocol Cut d)
    (hcut : ∀ step, Cut step → Cut' step) : Raised protocol Cut' d := by
  cases h with
  | cut hstep htls => exact .cut (hcut _ hstep) htls
  | transport failure => exact .transport failure
  | handshake failure htls => exact .handshake failure htls
  | denied => exact .denied
  | misbehaving hne hname => exact .misbehaving hne hname

theorem timeout_iff (h : Raised protocol Cut d) : d.timeout = true ↔ d.cause = .timeout := by
  cases h with
  | transport failure => simp [Query.transport]
  | _ => simp

theorem temporary_iff (h : Raised protocol Cut d) (hcut : ∀ step, Cut step → d = step.onCut) :
    d.temporary = true ↔ (∃ e, d.cause = .transport e) ∨
      d.cause = .serverMisbehaving .serverFailure ∨
      d.cause = .timeout ∧ (Cut .dialing ∨ Cut .exchange) := by
  cases h with
  | @cut step hstep _ =>
    simp only [Step.temporary_onCut, Step.cause_onCut, reduceCtorEq, exists_false, false_or,
      true_and]
    constructor
    · rintro (rfl | rfl)
      · exact .inl hstep
      · exact .inr hstep
    · rintro (h | h)
      · rw [← Step.temporary_onCut, hcut _ h]
        rfl
      · rw [← Step.temporary_onCut, hcut _ h]
        rfl
  | transport failure => simp [Query.transport]
  | handshake failure _ => simp
  | denied => simp
  | misbehaving hne hname => simp

theorem exists_cut (h : Raised protocol Cut d) (hd : d.cause = .timeout) : ∃ step, Cut step := by
  cases h with
  | cut hstep _ => exact ⟨_, hstep⟩
  | _ => cases hd

theorem tls_of_lasting (h : Raised protocol Cut d) (hd : d.cause = .timeout)
    (htemporary : d.temporary = false) : protocol = .tls := by
  cases h with
  | @cut step hstep htls =>
    cases step with
    | handshake => exact htls rfl
    | dialing => cases htemporary
    | exchange => cases htemporary
  | _ => cases hd

theorem tls_of_handshake {failure : IoFailure} (h : Raised protocol Cut d)
    (hd : d.cause = .handshake failure) : protocol = .tls := by
  cases h with
  | handshake _ htls => exact htls
  | @cut step =>
    rw [Step.cause_onCut] at hd
    cases hd
  | _ => cases hd

theorem rcode_ne {rcode : Rcode} (h : Raised protocol Cut d)
    (hd : d.cause = .serverMisbehaving rcode) : rcode ≠ .noError ∧ rcode ≠ .nameError := by
  cases h with
  | misbehaving hne hname =>
    cases hd
    exact ⟨hne, hname⟩
  | @cut step =>
    rw [Step.cause_onCut] at hd
    cases hd
  | _ => cases hd

/-- What a query asks for is supported. -/
theorem supported (h : Raised protocol Cut d) :
    d.cause ≠ .unsupportedNetwork ∧ d.cause ≠ .unsupportedProtocol := by
  cases h with
  | transport failure => simp [Query.transport]
  | _ => simp

/-- That a name does not exist, or a handshake failed, is final. -/
theorem lasting (h : Raised protocol Cut d)
    (hd : d.cause = .notFound ∨ ∃ e, d.cause = .handshake e) :
    d.temporary = false ∧ d.timeout = false := by
  cases h with
  | handshake failure _ => exact ⟨rfl, rfl⟩
  | denied => exact ⟨rfl, rfl⟩
  | @cut step => simp at hd
  | transport failure => simp [Query.transport] at hd
  | misbehaving => simp at hd

end Raised

theorem classify_raised {reply : Message} (h : classify reply = .error d) :
    Raised protocol Cut d := by
  unfold classify at h
  dsimp only at h
  split at h
  · cases h
  · rename_i hne
    split at h
    · cases h
      exact .denied
    · rename_i hname
      cases h
      exact .misbehaving hne hname

theorem exchange_raised (h : exchange cx deadline server r c w = ⟨.returned (.error d), n, es⟩)
    (hcut : ∀ m ds, guarded cx deadline (Exchange.run c r) w = ⟨.returned none, m, ds⟩ →
      Cut .exchange) : Raised protocol Cut d := by
  obtain ⟨reply, m, es, k, fs, hg, h, rfl, rfl⟩ := bind_returned h
  cases reply with
  | none =>
    cases (pure_returned h).1
    exact .cut (hcut m es hg) nofun
  | some result =>
    cases result with
    | error failure =>
      cases (pure_returned h).1
      exact .transport failure
    | ok reply =>
      obtain ⟨_, _, _, _, _, _, hp, _, _⟩ := bind_returned h
      exact classify_raised (pure_returned hp).1.symm

theorem secure_raised {a : Address}
    (h : secure cx deadline protocol a c w = ⟨.returned (.error d), n, es⟩)
    (hcut : ∀ s m ds, c = .stream s → protocol = .tls →
      guarded cx deadline (s.shakeHands a) w = ⟨.returned none, m, ds⟩ → Cut .handshake) :
    Raised protocol Cut d := by
  unfold secure at h
  split at h
  · cases (pure_returned h).1
  · cases (pure_returned h).1
  · cases (pure_returned h).1
    exact .transport _
  · rename_i s
    obtain ⟨shaken, m, es, k, fs, hg, hp, rfl, rfl⟩ := bind_returned h
    have hd := (pure_returned hp).1
    cases shaken with
    | none =>
      cases hd
      exact .cut (hcut s m es rfl rfl hg) fun _ => rfl
    | some result =>
      cases result with
      | error failure =>
        cases hd
        exact .handshake failure rfl
      | ok u => cases hd

/-- Every failure to ask a server is due to a step that was cut short, the network, or the reply. -/
theorem ask_raised (h : ask net cx deadline protocol server r w = ⟨.returned (.error d), n, es⟩) :
    Raised protocol (CutIn net cx deadline protocol server r w) d := by
  rw [ask_eq] at h
  obtain ⟨dialed, m, es, k, fs, hd, h, rfl, rfl⟩ := bind_returned h
  cases dialed with
  | none =>
    cases (pure_returned h).1
    have hcut : CutIn net cx deadline protocol server r w .dialing := .dialing hd
    exact .cut hcut nofun
  | some result =>
    cases result with
    | error failure =>
      cases (pure_returned h).1
      exact .transport failure
    | ok c =>
      obtain ⟨secured, i, ds, j, gs, hs, h, rfl, rfl⟩ := bind_returned h
      cases secured with
      | error e =>
        cases (pure_returned h).1
        refine secure_raised hs ?_
        rintro s l ls rfl htls hg
        exact .handshake htls hd hg
      | ok u =>
        refine exchange_raised h ?_
        intro l ls hg
        exact .exchange hd hs hg

/-- A step that is cut short ends asking a server. -/
theorem ask_of_cutIn {step : Step} (h : CutIn net cx deadline protocol server r w step) :
    ∃ n es, ask net cx deadline protocol server r w = ⟨.returned (.error step.onCut), n, es⟩ := by
  rw [ask_eq]
  cases h with
  | dialing hd =>
    rw [bind_of_returned hd]
    exact ⟨_, _, rfl⟩
  | @handshake s m n es fs htls hd hg =>
    have hsecure : secure cx deadline protocol server.address (.stream s) (w.after m es) =
        ⟨.returned (.error (.of .timeout)), n, fs ++ []⟩ := by
      subst htls
      exact bind_of_returned hg
    have htalk : talk cx deadline protocol server r (.stream s) (w.after m es) =
        ⟨.returned (.error (.of .timeout)), n, fs ++ [] ++ []⟩ := bind_of_returned hsecure
    rw [bind_of_returned hd]
    exact ⟨_, _, congrArg (Report.behind m es) htalk⟩
  | @exchange c k m n ds es fs hd hs hg =>
    have hexchange : exchange cx deadline server r c ((w.after k ds).after m es) =
        ⟨.returned (.error interrupted), n, fs ++ []⟩ := bind_of_returned hg
    have htalk : talk cx deadline protocol server r c (w.after k ds) =
        ⟨.returned (.error interrupted), m + n, es ++ (fs ++ [])⟩ :=
      (bind_of_returned hs).trans (congrArg (Report.behind m es) hexchange)
    rw [bind_of_returned hd]
    exact ⟨_, _, congrArg (Report.behind k ds) htalk⟩

section Run

variable {id : UInt16} {config : Config} {target : Target} {s : Server} {type : RecordType}

/-- A query is cut short in a step. -/
def RunCutIn (net : Network) (id : UInt16) (config : Config) (cx : Context) (target : Target)
    (s : Server) (type : RecordType) (w : World) (step : Step) : Prop :=
  ∃ deadline, cx.effectiveDeadline? w.now config.timeout = some deadline ∧
    CutIn net cx deadline config.protocol (s.endpoint config.protocol) ⟨id, target.name, type⟩
      (w.after 0 [begun config s type w]) step

theorem run_raised {f : Failure}
    (h : run net id config cx target s type w = ⟨.returned (.error f), n, es⟩) :
    f.subject = (Subject.host target.text).withServer (s.endpoint config.protocol) ∧
      Raised config.protocol (RunCutIn net id config cx target s type w) f.detail := by
  obtain ⟨deadline, x, fs, hd, hx, hf, rfl⟩ := run_returned h
  cases x with
  | ok reply => cases hf
  | error d =>
    cases hf
    exact ⟨rfl, (ask_raised hx).imp fun step hcut => ⟨deadline, hd, hcut⟩⟩

theorem run_of_cutIn {f : Failure} {step : Step}
    (h : run net id config cx target s type w = ⟨.returned (.error f), n, es⟩)
    (hcut : RunCutIn net id config cx target s type w step) : f.detail = step.onCut := by
  obtain ⟨deadline, x, fs, hd, hx, hf, rfl⟩ := run_returned h
  obtain ⟨deadline', hd', hcut⟩ := hcut
  obtain rfl : deadline = deadline' := Option.some_inj.mp (hd.symm.trans hd')
  obtain ⟨_, _, hask⟩ := ask_of_cutIn hcut
  rw [hx] at hask
  cases hask
  cases hf
  rfl

end Run

end Query

end HostLookup
