import HostLookup.Proofs.Activity.Sequence
import HostLookup.Resolver.Servers
import Mathlib.Data.List.ProdSigma

/-!
The walk over servers and record types, for any way of asking. The questions asked are the first
ones of all pairs, servers outermost; the walk goes on until an answer is a final failure, all types
of a server have been asked and brought an address, or no pair is left.
-/
set_option autoImplicit false

namespace HostLookup

/-- Causes of failures that end a lookup: no other server would do better. -/
inductive Cause.IsFinal : Cause → Prop where
  | unsupportedNetwork : IsFinal .unsupportedNetwork
  | unsupportedProtocol : IsFinal .unsupportedProtocol
  | handshake (e : IoFailure) : IsFinal (.handshake e)

theorem Failure.isFatal_iff {f : Failure} : f.isFatal = true ↔ f.cause.IsFinal := by
  unfold isFatal
  constructor
  · intro h
    split at h
    · rename_i hcause
      exact hcause ▸ .unsupportedNetwork
    · rename_i hcause
      exact hcause ▸ .unsupportedProtocol
    · rename_i e hcause
      exact hcause ▸ .handshake e
    · cases h
  · intro h
    generalize f.cause = cause at h
    cases h <;> rfl

namespace Servers

/-- A question to a server, and its answer. -/
structure Asked where
  server : Server
  type : RecordType
  answer : Answer

namespace Asked

def question (q : Asked) : Server × RecordType := (q.server, q.type)

def addresses (q : Asked) : List Address :=
  match q.answer with
  | .ok addrs => addrs
  | .error _ => []

def failure? (q : Asked) : Option Failure :=
  match q.answer with
  | .ok _ => none
  | .error f => some f

end Asked

/-- The addresses among the answers, in order. -/
def gathered (log : List Asked) : List Address := log.flatMap Asked.addresses

/-- The failures among the answers, in order. -/
def failures (log : List Asked) : List Failure := log.filterMap Asked.failure?

def NoneFatal (log : List Asked) : Prop := ∀ f ∈ failures log, ¬ f.cause.IsFinal

/-- From a world on, the questions asked in turn get their answers, in this time and with these
events. -/
def Asks (ask : Server → RecordType → Activity Answer) (w : World) (log : List Asked)
    (elapsed : Nat) (events : List Event) : Prop :=
  (log.map Asked.question).mapM (fun q => ask q.1 q.2) w =
    ⟨.returned (log.map Asked.answer), elapsed, events⟩

@[simp] theorem gathered_nil : gathered [] = [] := rfl

@[simp] theorem gathered_append (log more : List Asked) :
    gathered (log ++ more) = gathered log ++ gathered more := List.flatMap_append

@[simp] theorem gathered_singleton (q : Asked) : gathered [q] = q.addresses := by
  simp [gathered]

@[simp] theorem failures_append (log more : List Asked) :
    failures (log ++ more) = failures log ++ failures more := List.filterMap_append

theorem noneFatal_append_iff {log more : List Asked} :
    NoneFatal (log ++ more) ↔ NoneFatal log ∧ NoneFatal more := by
  simp [NoneFatal, or_imp, forall_and]

theorem noneFatal_nil : NoneFatal [] := by simp [NoneFatal, failures]

theorem noneFatal_ok (server : Server) (type : RecordType) (addrs : List Address) :
    NoneFatal [⟨server, type, .ok addrs⟩] := by
  simp [NoneFatal, failures, Asked.failure?]

theorem noneFatal_error {f : Failure} (h : f.isFatal = false) (server : Server)
    (type : RecordType) : NoneFatal [⟨server, type, .error f⟩] := by
  rw [← Bool.not_eq_true, Failure.isFatal_iff] at h
  simpa [NoneFatal, failures, Asked.failure?] using h

namespace Asks

variable {ask : Server → RecordType → Activity Answer} {w : World} {log more : List Asked}
variable {m n : Nat} {es fs : List Event}

theorem nil (ask : Server → RecordType → Activity Answer) (w : World) : Asks ask w [] 0 [] := rfl

theorem cons {server : Server} {type : RecordType} {answer : Answer}
    (h : ask server type w = ⟨.returned answer, m, es⟩) (h' : Asks ask (w.after m es) log n fs) :
    Asks ask w (⟨server, type, answer⟩ :: log) (m + n) (es ++ fs) := by
  unfold Asks at h' ⊢
  rw [List.map_cons, List.mapM_cons]
  refine (Activity.bind_of_returned h).trans ?_
  rw [Activity.bind_of_returned h']
  simp [Report.behind]

theorem of_cons {q : Asked} (h : Asks ask w (q :: log) n fs) :
    ∃ m es k gs, ask q.server q.type w = ⟨.returned q.answer, m, es⟩ ∧
      Asks ask (w.after m es) log k gs ∧ n = m + k ∧ fs = es ++ gs := by
  unfold Asks at h
  rw [List.map_cons, List.mapM_cons] at h
  obtain ⟨answer, m, es, _, _, hq, hrest, rfl, rfl⟩ := Activity.bind_returned h
  obtain ⟨answers, k, gs, _, _, hlog, hend, rfl, rfl⟩ := Activity.bind_returned hrest
  obtain ⟨ha, rfl, rfl⟩ := Activity.pure_returned hend
  rw [List.map_cons, List.cons.injEq] at ha
  obtain ⟨rfl, rfl⟩ := ha
  exact ⟨m, es, k, gs, hq, hlog, rfl, by rw [List.append_nil]⟩

theorem append (h : Asks ask w log m es) (h' : Asks ask (w.after m es) more n fs) :
    Asks ask w (log ++ more) (m + n) (es ++ fs) := by
  induction log generalizing w m es with
  | nil =>
    cases h
    simpa using h'
  | cons q log ih =>
    obtain ⟨m, es, k, gs, hq, hlog, rfl, rfl⟩ := h.of_cons
    rw [← World.after_after] at h'
    rw [Nat.add_assoc, List.append_assoc]
    exact cons hq (ih hlog h')

theorem of_append (h : Asks ask w (log ++ more) n fs) :
    ∃ m es k gs, Asks ask w log m es ∧ Asks ask (w.after m es) more k gs ∧ n = m + k ∧
      fs = es ++ gs := by
  induction log generalizing w n fs with
  | nil => exact ⟨0, [], n, fs, nil ask w, by rwa [World.after_zero_nil], by simp, rfl⟩
  | cons q log ih =>
    obtain ⟨m, es, k, gs, hq, hrest, rfl, rfl⟩ := h.of_cons
    obtain ⟨i, ds, j, hs, hlog, hmore, rfl, rfl⟩ := ih hrest
    rw [World.after_after] at hmore
    exact ⟨_, _, j, hs, cons hq hlog, hmore, (Nat.add_assoc m i j).symm,
      (List.append_assoc es ds hs).symm⟩

/-- Questions determine the time and the events. -/
theorem unique_of_questions (h : Asks ask w log m es) (h' : Asks ask w more n fs)
    (hq : log.map Asked.question = more.map Asked.question) : m = n ∧ es = fs := by
  unfold Asks at h h'
  rw [hq, h', Report.mk.injEq] at h
  exact ⟨h.2.1.symm, h.2.2.symm⟩

theorem unique (h : Asks ask w log m es) (h' : Asks ask w log n fs) : m = n ∧ es = fs :=
  h.unique_of_questions h' rfl

theorem singleton {server : Server} {type : RecordType} {answer : Answer}
    (h : ask server type w = ⟨.returned answer, m, es⟩) :
    Asks ask w [⟨server, type, answer⟩] m es := by
  simpa using cons h (nil ask _)

/-- A view of events that every question determines from its answer is determined by the log. -/
theorem view {β : Type} (view : List Event → List β) (hnil : view [] = [])
    (happ : ∀ es fs, view (es ++ fs) = view es ++ view fs) {f : Asked → List β}
    (hask : ∀ q w m es, ask q.server q.type w = ⟨.returned q.answer, m, es⟩ → view es = f q)
    (h : Asks ask w log n fs) : view fs = log.flatMap f := by
  induction log generalizing w n fs with
  | nil =>
    cases h
    exact hnil
  | cons q log ih =>
    obtain ⟨m, es, k, gs, hq, hlog, rfl, rfl⟩ := h.of_cons
    rw [happ, hask q w m es hq, ih hlog, List.flatMap_cons]

end Asks

/-- Of the questions to servers for types, `before` are those to the servers before some server,
and `row` the first ones to that server. -/
def Reaches (servers : List Server) (types : List RecordType)
    (before row : List (Server × RecordType)) : Prop :=
  ∃ earlier server later, servers = earlier ++ server :: later ∧ before = earlier ×ˢ types ∧
    row <+: types.map fun type => (server, type)

theorem product_append (servers more : List Server) (types : List RecordType) :
    (servers ++ more) ×ˢ types = servers ×ˢ types ++ more ×ˢ types :=
  List.flatMap_append

namespace Reaches

variable {servers : List Server} {types : List RecordType}
variable {before row : List (Server × RecordType)}

theorem first {server : Server} {later : List Server}
    (h : row <+: types.map fun type => (server, type)) :
    Reaches (server :: later) types [] row :=
  ⟨[], server, later, rfl, rfl, h⟩

theorem next (h : Reaches servers types before row) (server : Server) :
    Reaches (server :: servers) types ((types.map fun type => (server, type)) ++ before) row := by
  obtain ⟨earlier, s, later, rfl, rfl, h⟩ := h
  exact ⟨server :: earlier, s, later, rfl, rfl, h⟩

theorem isPrefix (h : Reaches servers types before row) : before ++ row <+: servers ×ˢ types := by
  obtain ⟨earlier, server, later, rfl, rfl, h⟩ := h
  rw [product_append, List.product_cons]
  exact List.prefix_append_right_inj _ |>.mpr (List.prefix_append_of_prefix h)

end Reaches

section Courses

variable {ask : Server → RecordType → Activity Answer}

/-- How asking one server can go: all questions are answered and no failure is final, one is, or one
question is never answered. -/
inductive RowCourse (ask : Server → RecordType → Activity Answer) (server : Server)
    (types : List RecordType) (w : World) (addrs : List Address) (first : Option Failure) :
    Report (Except Failure (List Address × Option Failure)) → Prop where
  | complete {row : List Asked} {m : Nat} {es : List Event} : Asks ask w row m es →
      row.map Asked.question = types.map (fun type => (server, type)) → NoneFatal row →
      RowCourse ask server types w addrs first
        ⟨.returned (.ok (addrs ++ gathered row, first.or (failures row).head?)), m, es⟩
  | fatal {row : List Asked} {type : RecordType} {f : Failure} {m : Nat} {es : List Event} :
      Asks ask w (row ++ [⟨server, type, .error f⟩]) m es →
      row.map Asked.question ++ [(server, type)] <+: types.map (fun type => (server, type)) →
      NoneFatal row → f.isFatal = true →
      RowCourse ask server types w addrs first ⟨.returned (.error f), m, es⟩
  | halted {row : List Asked} {type : RecordType} {d : Ending Answer}
      {e : Ending (Except Failure (List Address × Option Failure))} {m k : Nat}
      {es fs : List Event} : Asks ask w row m es →
      row.map Asked.question ++ [(server, type)] <+: types.map (fun type => (server, type)) →
      NoneFatal row → ask server type (w.after m es) = ⟨d, k, fs⟩ → d.Halts e →
      RowCourse ask server types w addrs first ⟨e, m + k, es ++ fs⟩

theorem RowCourse.next {server : Server} {type : RecordType} {types : List RecordType} {w : World}
    {answer : Answer} {addrs : List Address} {first : Option Failure} {m : Nat} {es : List Event}
    {r : Report (Except Failure (List Address × Option Failure))}
    (hask : ask server type w = ⟨.returned answer, m, es⟩)
    (hn : NoneFatal [⟨server, type, answer⟩])
    (h : RowCourse ask server types (w.after m es) (addrs ++ gathered [⟨server, type, answer⟩])
      (first.or (failures [⟨server, type, answer⟩]).head?) r) :
    RowCourse ask server (type :: types) w addrs first (r.behind m es) := by
  have hq := Asks.singleton hask
  cases h with
  | @complete row k fs hs hrow hf =>
    have h : RowCourse ask server (type :: types) w addrs first
        ⟨.returned (.ok (addrs ++ gathered ([⟨server, type, answer⟩] ++ row),
          first.or (failures ([⟨server, type, answer⟩] ++ row)).head?)), m + k, es ++ fs⟩ :=
      .complete (hq.append hs) (by simp [hrow, Asked.question])
        (noneFatal_append_iff.mpr ⟨hn, hf⟩)
    rw [gathered_append, failures_append, List.head?_append, ← Option.or_assoc,
      ← List.append_assoc] at h
    exact h
  | @fatal row t f k fs hs hrow hf hfatal =>
    have hs : Asks ask w ([⟨server, type, answer⟩] ++ row ++ [⟨server, t, .error f⟩])
        (m + k) (es ++ fs) := by
      rw [List.append_assoc]
      exact hq.append hs
    refine RowCourse.fatal hs ?_ (noneFatal_append_iff.mpr ⟨hn, hf⟩) hfatal
    simpa [Asked.question] using hrow
  | @halted row t d e k l fs gs hs hrow hf hpending hd =>
    rw [World.after_after] at hpending
    simp only [Report.behind]
    rw [← Nat.add_assoc, ← List.append_assoc]
    refine RowCourse.halted (hq.append hs) ?_ (noneFatal_append_iff.mpr ⟨hn, hf⟩) hpending hd
    simpa [Asked.question] using hrow

theorem RowCourse.pending {server : Server} {type : RecordType} {types : List RecordType}
    {w : World} {addrs : List Address} {first : Option Failure} {m : Nat} {es : List Event}
    {d : Ending Answer} {e : Ending (Except Failure (List Address × Option Failure))}
    (hask : ask server type w = ⟨d, m, es⟩) (hd : d.Halts e) :
    RowCourse ask server (type :: types) w addrs first ⟨e, m, es⟩ := by
  have h : RowCourse ask server (type :: types) w addrs first ⟨e, 0 + m, [] ++ es⟩ :=
    .halted (Asks.nil ask w) (List.prefix_append [(server, type)] _) noneFatal_nil
      (by rwa [World.after_zero_nil]) hd
  rwa [Nat.zero_add, List.nil_append] at h

theorem askTypes_course (ask : Server → RecordType → Activity Answer) (server : Server)
    (types : List RecordType) (addrs : List Address) (first : Option Failure) (w : World) :
    RowCourse ask server types w addrs first (askTypes (ask server) types addrs first w) := by
  induction types generalizing addrs first w with
  | nil =>
    have h : RowCourse ask server [] w addrs first
        ⟨.returned (.ok (addrs ++ gathered [], first.or (failures []).head?)), 0, []⟩ :=
      .complete (Asks.nil ask w) rfl noneFatal_nil
    simpa [failures, askTypes] using h
  | cons type types ih =>
    rw [askTypes]
    cases hq : ask server type w with
    | mk ending m es =>
      rcases ending.returned_or_halts (Except Failure (List Address × Option Failure)) with
        ⟨answer, rfl⟩ | ⟨e, he⟩
      · rw [Activity.bind_of_returned hq]
        cases answer with
        | ok found =>
          refine RowCourse.next hq (noneFatal_ok server type found) ?_
          simpa [failures, Asked.failure?, Asked.addresses] using ih (addrs ++ found) first _
        | error f =>
          cases hf : f.isFatal with
          | true =>
            have hs : Asks ask w ([] ++ [⟨server, type, .error f⟩]) m es := Asks.singleton hq
            have h : RowCourse ask server (type :: types) w addrs first
                ⟨.returned (.error f), m, es⟩ :=
              .fatal hs (List.prefix_append [(server, type)] _) noneFatal_nil hf
            simpa [hf, Report.behind] using h
          | false =>
            refine RowCourse.next hq (noneFatal_error hf server type) ?_
            have h := ih addrs (some (first.getD f)) (w.after m es)
            cases first <;> simpa [hf, failures, Asked.failure?, Asked.addresses] using h
      · rw [Activity.bind_of_halts hq he]
        exact .pending hq he

/-- Where a walk is: `before` are the answers of servers that brought no address, and `row` those of
the server that is being asked, with questions `pending`. No failure so far is final. -/
structure Underway (servers : List Server) (types : List RecordType) (before row : List Asked)
    (pending : List (Server × RecordType)) : Prop where
  reaches : Reaches servers types (before.map Asked.question) (row.map Asked.question ++ pending)
  noneFatal : NoneFatal (before ++ row)
  noneGathered : gathered before = []

/-- One more server before the others, which brings no address. -/
theorem Underway.next {servers : List Server} {types : List RecordType} {before row log : List Asked}
    {pending : List (Server × RecordType)} (h : Underway servers types before row pending)
    {server : Server} (hlog : log.map Asked.question = types.map fun type => (server, type))
    (hn : NoneFatal log) (hg : gathered log = []) :
    Underway (server :: servers) types (log ++ before) row pending where
  reaches := by
    rw [List.map_append, hlog]
    exact h.reaches.next server
  noneFatal := by
    rw [List.append_assoc]
    exact noneFatal_append_iff.mpr ⟨hn, h.noneFatal⟩
  noneGathered := by
    rw [gathered_append, hg, h.noneGathered, List.append_nil]

theorem Underway.first {server : Server} {later : List Server} {types : List RecordType}
    {row : List Asked} {pending : List (Server × RecordType)}
    (h : row.map Asked.question ++ pending <+: types.map fun type => (server, type))
    (hn : NoneFatal row) : Underway (server :: later) types [] row pending :=
  ⟨.first h, hn, gathered_nil⟩

/-- How a walk can go, if `first` is the first failure so far. -/
inductive Course (ask : Server → RecordType → Activity Answer) (servers : List Server)
    (types : List RecordType) (none : Failure) (first : Option Failure) (w : World) :
    Report Answer → Prop where
  | exhausted {log : List Asked} {m : Nat} {es : List Event} : Asks ask w log m es →
      log.map Asked.question = servers ×ˢ types → NoneFatal log → gathered log = [] →
      Course ask servers types none first w
        ⟨.returned (.error ((first.or (failures log).head?).getD none)), m, es⟩
  | served {before row : List Asked} {m : Nat} {es : List Event} :
      Asks ask w (before ++ row) m es → Underway servers types before row [] →
      row.length = types.length → gathered row ≠ [] →
      Course ask servers types none first w ⟨.returned (.ok (gathered row)), m, es⟩
  | fatal {before row : List Asked} {q : Server × RecordType} {f : Failure} {m : Nat}
      {es : List Event} : Asks ask w (before ++ row ++ [⟨q.1, q.2, .error f⟩]) m es →
      Underway servers types before row [q] → f.isFatal = true →
      Course ask servers types none first w ⟨.returned (.error f), m, es⟩
  | halted {before row : List Asked} {q : Server × RecordType} {d e : Ending Answer} {m k : Nat}
      {es fs : List Event} : Asks ask w (before ++ row) m es →
      Underway servers types before row [q] → ask q.1 q.2 (w.after m es) = ⟨d, k, fs⟩ →
      d.Halts e → Course ask servers types none first w ⟨e, m + k, es ++ fs⟩

theorem Course.next {server : Server} {servers : List Server} {types : List RecordType}
    {none : Failure} {first : Option Failure} {w : World} {log : List Asked} {m : Nat}
    {es : List Event} {r : Report Answer} (hlog : Asks ask w log m es)
    (hq : log.map Asked.question = types.map fun type => (server, type)) (hn : NoneFatal log)
    (hg : gathered log = [])
    (h : Course ask servers types none (first.or (failures log).head?) (w.after m es) r) :
    Course ask (server :: servers) types none first w (r.behind m es) := by
  cases h with
  | @exhausted rest k fs hs hrest hf hgr =>
    have h : Course ask (server :: servers) types none first w
        ⟨.returned (.error ((first.or (failures (log ++ rest)).head?).getD none)), m + k,
          es ++ fs⟩ :=
      .exhausted (hlog.append hs) (by rw [List.map_append, hq, hrest, List.product_cons])
        (noneFatal_append_iff.mpr ⟨hn, hf⟩) (by rw [gathered_append, hg, hgr, List.append_nil])
    rw [failures_append, List.head?_append, ← Option.or_assoc] at h
    exact h
  | served hs hu hlen hgr =>
    have hs := hlog.append hs
    rw [← List.append_assoc] at hs
    exact .served hs (hu.next hq hn hg) hlen hgr
  | fatal hs hu hfatal =>
    have hs := hlog.append hs
    rw [← List.append_assoc, ← List.append_assoc] at hs
    exact .fatal hs (hu.next hq hn hg) hfatal
  | halted hs hu hpending hd =>
    have hs := hlog.append hs
    rw [← List.append_assoc] at hs
    rw [World.after_after] at hpending
    simp only [Report.behind]
    rw [← Nat.add_assoc, ← List.append_assoc]
    exact .halted hs (hu.next hq hn hg) hpending hd

theorem askAll_course (ask : Server → RecordType → Activity Answer) (servers : List Server)
    (types : List RecordType) (none : Failure) (first : Option Failure) (w : World) :
    Course ask servers types none first w (askAll ask types none servers first w) := by
  induction servers generalizing first w with
  | nil =>
    have h : Course ask [] types none first w
        ⟨.returned (.error ((first.or (failures []).head?).getD none)), 0, []⟩ :=
      .exhausted (Asks.nil ask w) rfl noneFatal_nil gathered_nil
    simpa [failures, askAll] using h
  | cons server servers ih =>
    rw [askAll]
    have hrow := askTypes_course ask server types [] first w
    generalize hr : askTypes (ask server) types [] first w = r at hrow
    cases hrow with
    | @complete row m es hs hq hn =>
      rw [Activity.bind_of_returned hr]
      rw [List.nil_append]
      dsimp only
      split
      · rename_i hempty
        exact Course.next hs hq hn (List.isEmpty_iff.mp hempty) (ih _ _)
      · rename_i hne
        have hlen : row.length = types.length := by
          simpa using congrArg List.length hq
        have hu : Underway (server :: servers) types [] row [] := .first (by simp [hq]) hn
        have h : Course ask (server :: servers) types none first w
            ⟨.returned (.ok (gathered row)), m, es⟩ := by
          refine .served ?_ hu hlen (by simpa using hne)
          exact hs
        simpa [Report.behind] using h
    | @fatal row type f m es hs hq hn hfatal =>
      rw [Activity.bind_of_returned hr]
      have hu : Underway (server :: servers) types [] row [(server, type)] := .first hq hn
      have h : Course ask (server :: servers) types none first w ⟨.returned (.error f), m, es⟩ := by
        refine .fatal ?_ hu hfatal
        exact hs
      simpa [Report.behind] using h
    | @halted row type d e m k es fs hs hq hn hpending hd =>
      have hu : Underway (server :: servers) types [] row [(server, type)] := .first hq hn
      obtain ⟨e', he, hd⟩ := hd.through Answer
      rw [Activity.bind_of_halts hr he]
      refine .halted ?_ hu hpending hd
      exact hs

end Courses

end Servers

end HostLookup
