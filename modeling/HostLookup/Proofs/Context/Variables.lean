import HostLookup.Context.Derivation
import HostLookup.Proofs.Context.Inheritance

/-!
Contexts in variables. A derivation, which has a current and a kept context, does to their values
what is done in a genealogy when the two variables hold the numbers of contexts: steps on the
current context make another one for the variable to hold, and keeping or exchanging contexts makes
none. So what contexts of genealogies inherit, contexts of derivations do, too.
-/
set_option autoImplicit false

namespace HostLookup

namespace Genealogy

variable {f g h : Genealogy} {op : Operation}

def Reaches (g h : Genealogy) : Prop := ∃ ops, g.run? ops = some h

namespace Reaches

theorem trans (hf : Reaches f g) (hg : Reaches g h) : Reaches f h := by
  obtain ⟨ops, hf⟩ := hf
  obtain ⟨more, hg⟩ := hg
  refine ⟨ops ++ more, ?_⟩
  rw [run?_append, hf]
  exact hg

theorem sound (hr : Reaches g h) (hg : Sound g) : Sound h := by
  obtain ⟨_, hrun⟩ := hr
  exact hg.run hrun

theorem pairwise_cons {gs : List Genealogy} (hr : Reaches g h)
    (hpairs : (h :: gs).Pairwise Reaches) : (g :: h :: gs).Pairwise Reaches := by
  refine List.pairwise_cons.mpr ⟨?_, hpairs⟩
  exact List.forall_mem_cons.mpr
    ⟨hr, fun k hk => hr.trans (List.rel_of_pairwise_cons hpairs hk)⟩

end Reaches

/-- Two variables that hold contexts of a genealogy, by their numbers. -/
structure Variables where
  genealogy : Genealogy
  current : Nat
  saved : Nat
  deriving DecidableEq, Repr

namespace Variables

/-- Both hold the only context. -/
def initial : Variables := ⟨⟨0, [.root 0], [⟨.ofToken (.root 0), none⟩], []⟩, 0, 0⟩

/-- What a step does in the genealogy if `cx` is the current context. -/
def operations (v : Variables) (cx : Context) : Derivation.Step → List Operation
  | .deadline time => [.change v.current (.deadline time)]
  | .timeout duration => [.change v.current (.timeout duration)]
  | .sleep duration => [.sleep duration]
  | .newToken => [.newToken, .change v.current (.token v.genealogy.fresh)]
  | .childToken => [.childToken cx.token.id, .change v.current (.token v.genealogy.fresh)]
  | .save => []
  | .swap => []
  | .cancel => [.cancel cx.token.id]

/-- The numbers of the current and the kept context after a step. -/
def held (v : Variables) : Derivation.Step → Nat × Nat
  | .deadline _ | .timeout _ | .newToken | .childToken => (v.genealogy.members.length, v.saved)
  | .sleep _ | .cancel => (v.current, v.saved)
  | .save => (v.current, v.current)
  | .swap => (v.saved, v.current)

def step? (v : Variables) (st : Derivation.Step) : Option Variables := do
  let cx ← v.genealogy.context? v.current
  let g ← v.genealogy.run? (v.operations cx st)
  return ⟨g, (v.held st).1, (v.held st).2⟩

/-- The variables after each step. -/
def run? (v : Variables) : List Derivation.Step → Option (List Variables)
  | [] => some []
  | st :: sts => do
    let w ← v.step? st
    let ws ← w.run? sts
    return w :: ws

/-- The contexts that the variables hold are those of a derivation, at the same time and after the
same cancellations. -/
structure Shows (v : Variables) (s : Derivation.State) : Prop where
  now : v.genealogy.now = s.now
  current : v.genealogy.context? v.current = some s.current
  saved : v.genealogy.context? v.saved = some s.saved
  cancellations : v.genealogy.cancellations = s.cancellations
  fresh : v.genealogy.fresh = s.fresh

variable {v w : Variables} {s s' : Derivation.State} {st : Derivation.Step} {cx : Context}
  {t : Token} {c : Change}

theorem reaches_of_step? (hstep : v.step? st = some w) : v.genealogy.Reaches w.genealogy := by
  obtain ⟨cx, _, hrest⟩ := Option.bind_eq_some_iff.mp hstep
  obtain ⟨g, hrun, hw⟩ := Option.bind_eq_some_iff.mp hrest
  cases hw
  exact ⟨_, hrun⟩

namespace Shows

theorem initial : Shows initial .initial := ⟨rfl, rfl, rfl, rfl, rfl⟩

theorem step?_eq (hv : Shows v s) (hrun : v.genealogy.run? (v.operations s.current st) = some g) :
    v.step? st = some ⟨g, (v.held st).1, (v.held st).2⟩ := by
  simp only [step?, hv.current, hrun, Option.bind_eq_bind, Option.bind_some, Option.pure_def]

/-- The current variable holds what a change makes of its context. -/
theorem change (hv : Shows v s) (hc : Yields v.genealogy.tokens v.genealogy.now s.current c cx) :
    ∃ g, v.genealogy.run? [.change v.current c] = some g ∧
      Shows ⟨g, v.genealogy.members.length, v.saved⟩ { s with current := cx } := by
  have hs := Steps.change hv.current hc
  refine ⟨_, hs.run?_cons [], hv.now, ?_, ?_, hv.cancellations, hv.fresh⟩
  · exact context?_of_member List.getElem?_concat_length
  · exact (Later.of_steps hs).context hv.saved

/-- The current variable holds a context with a token that was just made. -/
theorem changeToken (hv : Shows v s) (hs : Steps v.genealogy op (v.genealogy.addToken t)) :
    ∃ g, v.genealogy.run? [op, .change v.current (.token v.genealogy.fresh)] = some g ∧
      Shows ⟨g, v.genealogy.members.length, v.saved⟩
        { s with current := s.current.withToken t, fresh := s.fresh + 1 } := by
  have hl := Later.of_steps hs
  have hadded : Shows ⟨v.genealogy.addToken t, v.current, v.saved⟩
      { s with fresh := s.fresh + 1 } := by
    refine ⟨hv.now, hl.context hv.current, hl.context hv.saved, hv.cancellations, ?_⟩
    rw [← hv.fresh]
    exact List.length_append
  obtain ⟨g, hrun, hg⟩ := hadded.change (.token List.getElem?_concat_length)
  exact ⟨g, (hs.run?_cons _).trans hrun, hg⟩

theorem step (hg : Sound v.genealogy) (hv : Shows v s) (hstep : s.step? st = some s') :
    ∃ w, v.step? st = some w ∧ Shows w s' := by
  have htoken : v.genealogy.tokens[s.current.token.id]? = some s.current.token :=
    hg.getElem?_token (hg.token_mem hv.current)
  suffices h : ∃ g, v.genealogy.run? (v.operations s.current st) = some g ∧
      Shows ⟨g, (v.held st).1, (v.held st).2⟩ s' by
    obtain ⟨g, hrun, hw⟩ := h
    exact ⟨_, hv.step?_eq hrun, hw⟩
  cases st with
  | deadline time =>
    cases hstep
    exact hv.change (.deadline time)
  | timeout duration =>
    obtain ⟨cx, hcx, rfl⟩ := Option.map_eq_some_iff.mp hstep
    rw [← hv.now, Context.withTimeout?_eq_some_iff] at hcx
    obtain ⟨hrange, rfl⟩ := hcx
    exact hv.change (.timeout hrange)
  | sleep duration =>
    cases hstep
    exact ⟨_, rfl, congrArg (· + duration) hv.now, hv.current, hv.saved, hv.cancellations,
      hv.fresh⟩
  | newToken =>
    cases hstep
    rw [← hv.fresh]
    have hnew := hv.changeToken .newToken
    rwa [← hv.fresh] at hnew
  | childToken =>
    cases hstep
    rw [← hv.fresh]
    have hnew := hv.changeToken (.childToken htoken)
    rwa [← hv.fresh] at hnew
  | save =>
    cases hstep
    exact ⟨_, rfl, hv.now, hv.current, hv.current, hv.cancellations, hv.fresh⟩
  | swap =>
    cases hstep
    exact ⟨_, rfl, hv.now, hv.saved, hv.current, hv.cancellations, hv.fresh⟩
  | cancel =>
    cases hstep
    refine ⟨_, (Steps.cancel htoken).run?_cons [], hv.now, hv.current, hv.saved, ?_, hv.fresh⟩
    rw [← hv.cancellations, ← hv.now]
    rfl

/-- The steps of a derivation are done on variables, too, which show its states. -/
theorem run (hg : Sound v.genealogy) (hv : Shows v s) {sts : List Derivation.Step}
    {states : List Derivation.State} (hrun : s.run? sts = some states) :
    ∃ vs, v.run? sts = some vs ∧ List.Forall₂ Shows vs states ∧
      ((v :: vs).map genealogy).Pairwise Reaches := by
  induction sts generalizing v s states with
  | nil =>
    cases hrun
    exact ⟨[], rfl, .nil, List.pairwise_singleton _ _⟩
  | cons st sts ih =>
    obtain ⟨s', hstep, hrest⟩ := Option.bind_eq_some_iff.mp hrun
    obtain ⟨behind, hbehind, hstates⟩ := Option.bind_eq_some_iff.mp hrest
    cases hstates
    obtain ⟨w, hw, hs'⟩ := hv.step hg hstep
    have hr := reaches_of_step? hw
    obtain ⟨ws, hws, hshown, hpairs⟩ := ih (hr.sound hg) hs' hbehind
    refine ⟨w :: ws, ?_, .cons hs' hshown, hr.pairwise_cons hpairs⟩
    simp only [run?, hw, hws, Option.bind_eq_bind, Option.bind_some, Option.pure_def]

end Shows

end Variables

/-- Whatever is done with contexts and tokens, a context inherits the deadlines and cancellations
of those that it is made from, then and later, and nothing from the tokens below its own. The
contexts of a derivation are such contexts, which the variables hold in turn. -/
theorem contexts_inherit :
    (∀ before more f g, initial.run? before = some f → f.run? more = some g → Upholds f more g) ∧
      ∀ sts states, Derivation.State.initial.run? sts = some states →
        ∃ vs, Variables.initial.run? sts = some vs ∧ List.Forall₂ Variables.Shows vs states ∧
          (initial :: (Variables.initial :: vs).map Variables.genealogy).Pairwise Reaches := by
  have hinitial : Reaches initial Variables.initial.genealogy := ⟨[.newContext], rfl⟩
  constructor
  · intro before more f g hf hg
    exact (Sound.initial.run hf).upholds hg
  · intro sts states hrun
    obtain ⟨vs, hvs, hshown, hpairs⟩ :=
      Variables.Shows.initial.run (hinitial.sound Sound.initial) hrun
    exact ⟨vs, hvs, hshown, hinitial.pairwise_cons hpairs⟩

/-- The token below that of the first context is cancelled. A context that has it is done, and so is
one that was made from it twice over, with the earlier one of two deadlines; the first context is
not. -/
theorem contexts_inherit_child : ∃ f g,
    initial.run? [.newContext, .childToken 0, .change 0 (.token 1), .change 1 (.timeout 500),
      .cancel 1] = some f ∧
    f.run? [.sleep 100, .change 2 (.deadline 900)] = some g ∧
    f.Done 1 ∧ g.Heir 1 3 ∧ g.Done 3 ∧ ¬ g.Done 0 ∧
    (∃ ds, g.Applied 3 ds ∧ some 500 = ds.min?) ∧
    ∃ states, Derivation.State.initial.run? [.save, .childToken, .cancel, .swap] = some states ∧
      ∃ vs, Variables.initial.run? [.save, .childToken, .cancel, .swap] = some vs ∧
        List.Forall₂ Variables.Shows vs states := by
  have hupholds := contexts_inherit.1 [.newContext, .childToken 0, .change 0 (.token 1),
    .change 1 (.timeout 500), .cancel 1] [.sleep 100, .change 2 (.deadline 900)] _ _ rfl rfl
  obtain ⟨vs, hvs, hshown, _⟩ := contexts_inherit.2 [.save, .childToken, .cancel, .swap] _ rfl
  refine ⟨_, _, rfl, rfl, ?done, ?heir, hupholds.heirs 1 3 ?done ?heir, ?parent, ?deadline, _,
    rfl, vs, hvs, hshown⟩
  case done => exact ⟨_, rfl, by decide⟩
  case heir => exact .kept (.kept .self rfl (by nofun)) rfl (by nofun)
  case parent =>
    rw [hupholds.done_iff 0 _ [] rfl (.new rfl)]
    rintro (⟨c, hc, hid⟩ | ⟨d, hd, _⟩)
    · revert hid
      cases List.mem_singleton.mp hc
      decide
    · cases hd
  case deadline =>
    obtain ⟨ds, happlied⟩ := hupholds.applied 3 _ rfl
    refine ⟨ds, happlied, ?_⟩
    rw [← hupholds.deadline 3 _ ds rfl happlied]
    decide +kernel

end Genealogy

end HostLookup
