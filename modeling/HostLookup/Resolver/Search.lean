import HostLookup.Activity.Guard
import HostLookup.Config.SearchList
import HostLookup.Resolver.Literal

/-!
Completing relative names. A host's candidates are the names it may stand for; they are looked up
one after the other by another resolver until one of them has an answer, fails for good, or there is
no time left. If none has an answer, the first failure is reported.
-/
set_option autoImplicit false

namespace HostLookup

/-- A search list over another resolver. -/
structure Search where
  inner : Resolver
  list : SearchList
  /-- The number of dots from which a name is tried as it is before it is completed. -/
  ndots : Nat

namespace Search

/-- The host is complete: it ends in a dot, is empty, or is a literal address. -/
def isComplete (host : String) : Bool :=
  DomainName.endsInDot host || host == "" || (Address.ofString? host).isSome

/-- The host completed with an entry of a search list. -/
def complete (host entry : String) : String := host ++ "." ++ entry

/-- The names to try for a host, in order. -/
def candidates (list : SearchList) (ndots : Nat) (host : String) : List String :=
  if isComplete host then [host]
  else
    let completed := list.entries.map (complete host)
    if ndots ≤ host.toList.count '.' then host :: completed else completed ++ [host]

/-- Another candidate may do better after this failure. -/
def goesOn (f : Failure) : Bool := f.isNotFound || f.isTemporary

/-- Looks up candidates in turn; `first` is the first failure so far. -/
def tryAll (ask : String → Activity Answer) (isDone : Activity Bool) (none : Failure) :
    Option Failure → List String → Activity Answer
  | first, [] => pure (.error (first.getD none))
  | first, name :: names => do
    match ← ask name with
    | .ok addrs => return .ok addrs
    | .error f =>
      let finished ← isDone
      if !goesOn f || finished then return .error (first.getD f)
      else tryAll ask isDone none (some (first.getD f)) names

/-- Asks the inner resolver for one candidate. -/
def ask (s : Search) (cx : Context) (network name : String) : Activity Answer := do
  Activity.record (.asked network name)
  s.inner cx network name

/-- Looks up a host by its candidates. -/
def resolver (s : Search) : Resolver := fun cx network host =>
  match Family.ofNetwork network host with
  | .error f => pure (.error f)
  | .ok _ =>
    tryAll (s.ask cx network) (Activity.isDone cx) (.ofHost host .notFound) none
      (candidates s.list s.ndots host)

end Search

end HostLookup
