import HostLookup.Proofs.Activity.Sequence
import HostLookup.Resolver.Search
import Mathlib.Data.List.Nodup

/-!
Trying names in turn, for any way of asking. A name that fails is followed by the next one if that
may do better and the context was not done by then. The last answer tells whether there are
addresses; if there are none, the first failure is the result.
-/
set_option autoImplicit false

namespace HostLookup.Search

open Activity

/-- A name that was asked for, its answer, and whether the context was done by then. -/
structure Trial where
  name : String
  answer : Answer
  finished : Bool

namespace Trial

def answeredIn (cx : Context) (w : World) (name : String) (answer : Answer) : Trial :=
  ⟨name, answer, cx.isDone w.cancellations w.now⟩

def failure? (t : Trial) : Option Failure :=
  match t.answer with
  | .ok _ => none
  | .error f => some f

/-- The next name may be tried. -/
def goesOn (t : Trial) : Bool := t.failure?.any Search.goesOn && !t.finished

end Trial

/-- From a world on, the names asked for in turn get their answers, in this time and with these
events. -/
inductive Tries (ask : String → Activity Answer) (cx : Context) :
    World → List Trial → Nat → List Event → Prop where
  | nil (w : World) : Tries ask cx w [] 0 []
  | cons {w : World} {t : Trial} {log : List Trial} {m n : Nat} {es fs : List Event} :
      ask t.name w = ⟨.returned t.answer, m, es⟩ →
      t.finished = cx.isDone (w.after m es).cancellations (w.after m es).now →
      Tries ask cx (w.after m es) log n fs → Tries ask cx w (t :: log) (m + n) (es ++ fs)

theorem Tries.singleton {ask : String → Activity Answer} {cx : Context} {w : World} {t : Trial}
    {m : Nat} {es : List Event} (h : ask t.name w = ⟨.returned t.answer, m, es⟩)
    (hd : t.finished = cx.isDone (w.after m es).cancellations (w.after m es).now) :
    Tries ask cx w [t] m es := by
  simpa using Tries.cons h hd (.nil _)

/-- Of the names, those asked for are the first ones; `log` are the trials of those that were
answered. While there are names left, one that was answered is followed by the next one exactly if
it may be. -/
structure InTurn (names : List String) (log : List Trial) (asked : List String) : Prop where
  started : names ≠ [] → asked ≠ []
  isPrefix : asked <+: names
  next_iff : ∀ before t, before ++ [t] <+: log → before.length + 1 < names.length →
    (before.length + 1 < asked.length ↔ t.goesOn = true)

namespace InTurn

variable {name : String} {names asked : List String} {t : Trial} {log : List Trial}

theorem nil : InTurn [] [] [] where
  started h := h
  isPrefix := List.prefix_refl []
  next_iff _ _ _ h := absurd h (Nat.not_lt_zero _)

theorem pending : InTurn (name :: names) [] [name] where
  started _ := nofun
  isPrefix := List.prefix_append [name] names
  next_iff before t h := by simp at h

theorem last (h : t.goesOn = false) : InTurn (name :: names) [t] [name] where
  started _ := nofun
  isPrefix := List.prefix_append [name] names
  next_iff before u hu _ := by
    have hlen := hu.length_le
    cases before with
    | nil =>
      obtain rfl : u = t := by simpa using hu
      simp [h]
    | cons v before => simp at hlen

theorem next (hgoes : t.goesOn = true) (h : InTurn names log asked) :
    InTurn (name :: names) (t :: log) (name :: asked) where
  started _ := nofun
  isPrefix := (List.prefix_cons_inj name).mpr h.isPrefix
  next_iff before u hu hmore := by
    cases before with
    | nil =>
      obtain rfl : u = t := by simpa using hu
      have hasked := List.length_pos_of_ne_nil (h.started (by rintro rfl; simp at hmore))
      simpa [hgoes] using hasked
    | cons v before =>
      have hu' := ((List.cons_prefix_cons).mp hu).2
      have hnext := h.next_iff before u hu' (by simpa using hmore)
      simpa using hnext

end InTurn

/-- What names that were all answered come to, if `first` is the first failure so far: the last
answer if it has addresses, or else the first failure. -/
structure Reports (none : Failure) (first : Option Failure) (log : List Trial) (answer : Answer) :
    Prop where
  ok_iff : ∀ addrs, answer = .ok addrs ↔ ∃ t, log.getLast? = some t ∧ t.answer = .ok addrs
  error : ∀ f, answer = .error f → (log = [] ∧ f = first.getD none) ∨
    ∃ t g, log.head? = some t ∧ t.answer = .error g ∧ f = first.getD g

namespace Reports

variable {none f : Failure} {first : Option Failure} {t : Trial} {log : List Trial}
variable {answer : Answer}

theorem nil : Reports none first [] (.error (first.getD none)) where
  ok_iff addrs := by simp
  error g hg := by
    cases hg
    exact .inl ⟨rfl, rfl⟩

theorem ok {addrs : List Address} (h : t.answer = .ok addrs) :
    Reports none first [t] (.ok addrs) where
  ok_iff more := by simp [h]
  error g hg := nomatch hg

theorem stopped (h : t.answer = .error f) : Reports none first [t] (.error (first.getD f)) where
  ok_iff addrs := by simp [h]
  error g hg := by
    cases hg
    exact .inr ⟨t, f, rfl, h, rfl⟩

theorem next (hf : t.answer = .error f) (h : Reports none (some (first.getD f)) log answer) :
    Reports none first (t :: log) answer where
  ok_iff addrs := by
    rw [h.ok_iff addrs]
    cases log with
    | nil => simp [hf]
    | cons u log => rw [List.getLast?_cons_cons]
  error g hg := by
    refine .inr ⟨t, f, rfl, hf, ?_⟩
    rcases h.error g hg with ⟨_, rfl⟩ | ⟨_, _, _, _, rfl⟩
    · rfl
    · rfl

end Reports

/-- How trying names in turn can go: the last one is answered, or is not. -/
inductive Tried (ask : String → Activity Answer) (cx : Context) (names : List String)
    (none : Failure) (first : Option Failure) (w : World) : Report Answer → Prop where
  | returned {log : List Trial} {answer : Answer} {m : Nat} {es : List Event} :
      Tries ask cx w log m es → InTurn names log (log.map Trial.name) →
      Reports none first log answer →
      Tried ask cx names none first w ⟨.returned answer, m, es⟩
  | halted {log : List Trial} {name : String} {d e : Ending Answer} {m k : Nat}
      {es fs : List Event} :
      Tries ask cx w log m es → InTurn names log (log.map Trial.name ++ [name]) →
      ask name (w.after m es) = ⟨d, k, fs⟩ → d.Halts e →
      Tried ask cx names none first w ⟨e, m + k, es ++ fs⟩

section

variable {ask : String → Activity Answer} {cx : Context} {names : List String} {none : Failure}
variable {first : Option Failure} {w : World}

theorem Tried.pending {name : String} {d e : Ending Answer} {m : Nat} {es : List Event}
    (hask : ask name w = ⟨d, m, es⟩) (hd : d.Halts e) :
    Tried ask cx (name :: names) none first w ⟨e, m, es⟩ := by
  have h : Tried ask cx (name :: names) none first w ⟨e, 0 + m, [] ++ es⟩ :=
    .halted (.nil w) .pending (by rwa [World.after_zero_nil]) hd
  rwa [Nat.zero_add, List.nil_append] at h

theorem Tried.next {t : Trial} {f : Failure} {m : Nat} {es : List Event} {r : Report Answer}
    (hask : ask t.name w = ⟨.returned t.answer, m, es⟩)
    (hd : t.finished = cx.isDone (w.after m es).cancellations (w.after m es).now)
    (hf : t.answer = .error f) (hgoes : t.goesOn = true)
    (h : Tried ask cx names none (some (first.getD f)) (w.after m es) r) :
    Tried ask cx (t.name :: names) none first w (r.behind m es) := by
  cases h with
  | returned hs hi hr => exact .returned (.cons hask hd hs) (hi.next hgoes) (hr.next hf)
  | halted hs hi hpending he =>
    rw [World.after_after] at hpending
    simp only [Report.behind]
    rw [← Nat.add_assoc, ← List.append_assoc]
    exact .halted (.cons hask hd hs) (hi.next hgoes) hpending he

theorem tryAll_ok {name : String} {addrs : List Address} {m : Nat} {es : List Event}
    (hask : ask name w = ⟨.returned (.ok addrs), m, es⟩) :
    tryAll ask (isDone cx) none first (name :: names) w = ⟨.returned (.ok addrs), m, es⟩ := by
  rw [tryAll, bind_of_returned hask]
  simp [Report.behind]

theorem tryAll_error {name : String} {f : Failure} {m : Nat} {es : List Event}
    (hask : ask name w = ⟨.returned (.error f), m, es⟩) :
    tryAll ask (isDone cx) none first (name :: names) w =
      if (Trial.answeredIn cx (w.after m es) name (.error f)).goesOn = true then
        (tryAll ask (isDone cx) none (some (first.getD f)) names (w.after m es)).behind m es
      else ⟨.returned (.error (first.getD f)), m, es⟩ := by
  have hdone : isDone cx (w.after m es) =
      ⟨.returned (cx.isDone (w.after m es).cancellations (w.after m es).now), 0, []⟩ := rfl
  rw [tryAll, bind_of_returned hask, Trial.answeredIn]
  dsimp only
  rw [bind_of_returned hdone, World.after_zero_nil, Report.behind_zero_nil]
  generalize cx.isDone (w.after m es).cancellations (w.after m es).now = finished
  cases hf : Search.goesOn f <;> cases finished <;>
    simp [Trial.goesOn, Trial.failure?, Report.behind, hf]

theorem tryAll_tried (ask : String → Activity Answer) (cx : Context) (none : Failure)
    (first : Option Failure) (names : List String) (w : World) :
    Tried ask cx names none first w (tryAll ask (isDone cx) none first names w) := by
  -- The first failure so far is handed on, so that the names left are tried as if from the start.
  induction names generalizing first w with
  | nil => exact .returned (.nil w) .nil .nil
  | cons name names ih =>
    cases hask : ask name w with
    | mk ending m es =>
      rcases ending.returned_or_halts Answer with ⟨answer, rfl⟩ | ⟨e, he⟩
      · let t := Trial.answeredIn cx (w.after m es) name answer
        have hs : Tries ask cx w [t] m es := .singleton hask rfl
        cases answer with
        | ok addrs =>
          rw [tryAll_ok hask]
          exact .returned hs (.last rfl) (.ok rfl)
        | error f =>
          rw [tryAll_error hask]
          split
          · rename_i hgoes
            exact .next (t := t) hask rfl rfl hgoes (ih _ _)
          · rename_i hstop
            exact .returned hs (.last (eq_false_of_ne_true hstop)) (.stopped rfl)
      · rw [tryAll, bind_of_halts hask he]
        exact .pending hask he

end

end HostLookup.Search
