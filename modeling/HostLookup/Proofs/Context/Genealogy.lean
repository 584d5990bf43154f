import HostLookup.Proofs.Context.Done

/-!
Any number of contexts and tokens that come from each other, with time passing and tokens being
cancelled in between. Contexts are values: one that another one is made from is still there, as a
copy of it would be, and it does not matter in which variable a context is kept. So contexts and
tokens have numbers, in the order in which they are made, and all of them stay.
-/
set_option autoImplicit false

namespace HostLookup

namespace Genealogy

/-- How a context is made from another one. -/
inductive Change where
  | clone
  | deadline (time : Nat)
  | timeout (duration : Nat)
  /-- It gets the token with this number. -/
  | token (number : Nat)
  deriving DecidableEq, Repr

/-- The context that a change makes, unless a deadline would lie beyond the clock's range or there
is no such token. -/
def Change.apply? (tokens : List Token) (now : Nat) (cx : Context) : Change → Option Context
  | .clone => some cx
  | .deadline time => some (cx.withDeadline time)
  | .timeout duration => cx.withTimeout? now duration
  | .token number => tokens[number]?.map cx.withToken

/-- The deadlines that a change applies at an instant. -/
def Change.deadlines (now : Nat) : Change → List Nat
  | .clone => []
  | .deadline time => [time]
  | .timeout duration => [now + duration]
  | .token _ => []

/-- From which context, how and when another one was made. -/
structure Origin where
  parent : Nat
  change : Change
  time : Nat
  deriving DecidableEq, Repr

structure Member where
  context : Context
  /-- Nothing for a context that was not made from another one. -/
  origin : Option Origin
  deriving DecidableEq, Repr

inductive Operation where
  /-- Makes a context with a token of its own and without deadline. -/
  | newContext
  | change (parent : Nat) (change : Change)
  | newToken
  | childToken (parent : Nat)
  | cancel (token : Nat)
  | sleep (duration : Nat)
  deriving DecidableEq, Repr

end Genealogy

structure Genealogy where
  now : Nat
  tokens : List Token
  members : List Genealogy.Member
  cancellations : List Cancellation
  deriving DecidableEq, Repr

namespace Genealogy

/-- No contexts and no tokens, at time zero. -/
def initial : Genealogy := ⟨0, [], [], []⟩

def context? (g : Genealogy) (k : Nat) : Option Context := g.members[k]?.map Member.context

def addToken (g : Genealogy) (t : Token) : Genealogy := { g with tokens := g.tokens ++ [t] }

def addContext (g : Genealogy) (cx : Context) (origin : Option Origin) : Genealogy :=
  { g with members := g.members ++ [⟨cx, origin⟩] }

def addCancellation (g : Genealogy) (t : Token) : Genealogy :=
  { g with cancellations := g.cancellations ++ [⟨t.id, g.now⟩] }

def addTime (g : Genealogy) (duration : Nat) : Genealogy := { g with now := g.now + duration }

/-- An identity that no token has yet. -/
def fresh (g : Genealogy) : Nat := g.tokens.length

/-- Fails if there is no such context or token, or a deadline would lie beyond the clock's range. -/
def step? (g : Genealogy) : Operation → Option Genealogy
  | .newContext => some ((g.addToken (.root g.fresh)).addContext (.ofToken (.root g.fresh)) none)
  | .change parent change => do
    let cx ← g.context? parent
    let cx' ← change.apply? g.tokens g.now cx
    return g.addContext cx' (some ⟨parent, change, g.now⟩)
  | .newToken => some (g.addToken (.root g.fresh))
  | .childToken parent => g.tokens[parent]?.map fun t => g.addToken (t.child g.fresh)
  | .cancel token => g.tokens[token]?.map g.addCancellation
  | .sleep duration => some (g.addTime duration)

def run? (g : Genealogy) : List Operation → Option Genealogy
  | [] => some g
  | op :: ops => (g.step? op).bind fun h => h.run? ops

/-- There is such a context, and it is cancelled or expired. -/
def Done (g : Genealogy) (k : Nat) : Prop :=
  ∃ cx, g.context? k = some cx ∧ cx.isDone g.cancellations g.now = true

variable {g h : Genealogy} {k n : Nat} {m : Member} {cx cx' : Context} {t u : Token}
  {op : Operation} {ops : List Operation}

theorem context?_eq_some_iff :
    g.context? k = some cx ↔ ∃ origin, g.members[k]? = some ⟨cx, origin⟩ := by
  rw [context?, Option.map_eq_some_iff]
  constructor
  · rintro ⟨⟨_, origin⟩, hm, rfl⟩
    exact ⟨origin, hm⟩
  · rintro ⟨origin, hm⟩
    exact ⟨_, hm, rfl⟩

theorem run?_append (g : Genealogy) (ops more : List Operation) :
    g.run? (ops ++ more) = (g.run? ops).bind fun h => h.run? more := by
  induction ops generalizing g with
  | nil => rfl
  | cons op ops ih =>
    simp only [List.cons_append, run?, Option.bind_assoc, ih]

/-! ### Changes -/

/-- What a change makes of a context. -/
inductive Yields (tokens : List Token) (now : Nat) (cx : Context) : Change → Context → Prop where
  | clone : Yields tokens now cx .clone cx
  | deadline (time : Nat) : Yields tokens now cx (.deadline time) (cx.withDeadline time)
  | timeout {duration : Nat} : now + duration < Clock.range →
      Yields tokens now cx (.timeout duration) (cx.withDeadline (now + duration))
  | token {n : Nat} {t : Token} : tokens[n]? = some t →
      Yields tokens now cx (.token n) (cx.withToken t)

theorem Change.apply?_eq_some_iff {tokens : List Token} {now : Nat} {c : Change} :
    c.apply? tokens now cx = some cx' ↔ Yields tokens now cx c cx' := by
  constructor
  · intro h
    cases c with
    | clone =>
      cases h
      exact .clone
    | deadline time =>
      cases h
      exact .deadline time
    | timeout duration =>
      obtain ⟨hrange, rfl⟩ := Context.withTimeout?_eq_some_iff.mp h
      exact .timeout hrange
    | token n =>
      obtain ⟨t, ht, rfl⟩ := Option.map_eq_some_iff.mp h
      exact .token ht
  · intro h
    cases h with
    | clone => rfl
    | deadline time => rfl
    | timeout hrange => exact Context.withTimeout?_eq_some_iff.mpr ⟨hrange, rfl⟩
    | token ht => exact Option.map_eq_some_iff.mpr ⟨_, ht, rfl⟩

/-! ### Steps -/

/-- What an operation makes of a genealogy. -/
inductive Steps (g : Genealogy) : Operation → Genealogy → Prop where
  | newContext : Steps g .newContext
      ((g.addToken (.root g.fresh)).addContext (.ofToken (.root g.fresh)) none)
  | change {parent : Nat} {c : Change} {cx cx' : Context} : g.context? parent = some cx →
      Yields g.tokens g.now cx c cx' →
      Steps g (.change parent c) (g.addContext cx' (some ⟨parent, c, g.now⟩))
  | newToken : Steps g .newToken (g.addToken (.root g.fresh))
  | childToken {n : Nat} {t : Token} : g.tokens[n]? = some t →
      Steps g (.childToken n) (g.addToken (t.child g.fresh))
  | cancel {n : Nat} {t : Token} : g.tokens[n]? = some t →
      Steps g (.cancel n) (g.addCancellation t)
  | sleep (duration : Nat) : Steps g (.sleep duration) (g.addTime duration)

theorem step?_eq_some_iff : g.step? op = some h ↔ Steps g op h := by
  constructor
  · intro hs
    cases op with
    | newContext =>
      cases hs
      exact .newContext
    | change parent c =>
      obtain ⟨cx, hcx, hs⟩ := Option.bind_eq_some_iff.mp hs
      obtain ⟨cx', hc, hs⟩ := Option.bind_eq_some_iff.mp hs
      cases hs
      exact .change hcx (Change.apply?_eq_some_iff.mp hc)
    | newToken =>
      cases hs
      exact .newToken
    | childToken n =>
      obtain ⟨t, ht, rfl⟩ := Option.map_eq_some_iff.mp hs
      exact .childToken ht
    | cancel n =>
      obtain ⟨t, ht, rfl⟩ := Option.map_eq_some_iff.mp hs
      exact .cancel ht
    | sleep duration =>
      cases hs
      exact .sleep duration
  · intro hs
    cases hs with
    | newContext => rfl
    | change hcx hc => simp [step?, hcx, Change.apply?_eq_some_iff.mpr hc]
    | newToken => rfl
    | childToken ht => simp [step?, ht]
    | cancel ht => simp [step?, ht]
    | sleep duration => rfl

theorem Steps.run?_cons (hs : Steps g op h) (ops : List Operation) :
    g.run? (op :: ops) = h.run? ops := by
  rw [run?, step?_eq_some_iff.mpr hs]
  rfl

/-- What holds from one moment of a run to another, if it does so from one step to the next. -/
theorem run?_induction {R : Genealogy → Genealogy → Prop} (hrefl : ∀ g, R g g)
    (hstep : ∀ {g h k op}, Steps g op h → R h k → R g k) (hrun : g.run? ops = some h) : R g h := by
  induction ops generalizing g with
  | nil =>
    cases hrun
    exact hrefl _
  | cons op ops ih =>
    obtain ⟨g', hs, hrun⟩ := Option.bind_eq_some_iff.mp hrun
    exact hstep (step?_eq_some_iff.mp hs) (ih hrun)

theorem getElem?_of_isPrefix {α : Type} {l l' : List α} {a : α} (hl : l <+: l')
    (ha : l[n]? = some a) : l'[n]? = some a := by
  obtain ⟨hn, rfl⟩ := List.getElem?_eq_some_iff.mp ha
  exact List.prefix_iff_getElem?.mp hl n hn

/-- Time goes on, and contexts, tokens and cancellations stay. -/
structure Later (g h : Genealogy) : Prop where
  now_le : g.now ≤ h.now
  tokens : g.tokens <+: h.tokens
  members : g.members <+: h.members
  cancellations : g.cancellations <+: h.cancellations

namespace Later

theorem refl (g : Genealogy) : Later g g :=
  ⟨Nat.le_refl _, List.prefix_refl _, List.prefix_refl _, List.prefix_refl _⟩

theorem trans {f : Genealogy} (hf : Later f g) (hg : Later g h) : Later f h :=
  ⟨Nat.le_trans hf.now_le hg.now_le, hf.tokens.trans hg.tokens, hf.members.trans hg.members,
    hf.cancellations.trans hg.cancellations⟩

theorem addToken (g : Genealogy) (t : Token) : Later g (g.addToken t) :=
  { refl g with tokens := List.prefix_append _ _ }

theorem addContext (g : Genealogy) (cx : Context) (origin : Option Origin) :
    Later g (g.addContext cx origin) :=
  { refl g with members := List.prefix_append _ _ }

theorem of_steps (hs : Steps g op h) : Later g h := by
  cases hs with
  | newContext => exact (addToken g _).trans (addContext _ _ _)
  | change => exact addContext g _ _
  | newToken => exact addToken g _
  | childToken => exact addToken g _
  | cancel => exact { refl g with cancellations := List.prefix_append _ _ }
  | sleep duration => exact { refl g with now_le := Nat.le_add_right _ _ }

theorem of_run (hrun : g.run? ops = some h) : Later g h :=
  run?_induction refl (fun hs => (of_steps hs).trans) hrun

theorem token (hl : Later g h) (ht : g.tokens[n]? = some t) : h.tokens[n]? = some t :=
  getElem?_of_isPrefix hl.tokens ht

theorem member (hl : Later g h) (hm : g.members[k]? = some m) : h.members[k]? = some m :=
  getElem?_of_isPrefix hl.members hm

theorem context (hl : Later g h) (hcx : g.context? k = some cx) : h.context? k = some cx := by
  obtain ⟨origin, hm⟩ := context?_eq_some_iff.mp hcx
  exact context?_eq_some_iff.mpr ⟨origin, hl.member hm⟩

end Later

end Genealogy

end HostLookup
