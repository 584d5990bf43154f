import HostLookup.Proofs.Stub.Lookup

/-!
Hosts that stand for the same name. What servers are asked depends on the name alone, and so does
what comes of it; the host is named only in the failure of a lookup in which no server has failed.
-/
set_option autoImplicit false

namespace HostLookup

namespace Servers

open Activity

/-- Reports that are the same, or differ just in the failure that is reported if there is no other.
-/
inductive SameBut (none none' : Failure) : Report Answer → Report Answer → Prop where
  | same (r : Report Answer) : SameBut none none' r r
  | unknown (m : Nat) (es : List Event) :
      SameBut none none' ⟨.returned (.error none), m, es⟩ ⟨.returned (.error none'), m, es⟩

variable {none none' : Failure} {r r' : Report Answer}

theorem SameBut.behind (h : SameBut none none' r r') (m : Nat) (es : List Event) :
    SameBut none none' (r.behind m es) (r'.behind m es) := by
  cases h with
  | same => exact .same _
  | unknown k fs => exact .unknown (m + k) (es ++ fs)

theorem SameBut.bind {α : Type} {first : Activity α} {next next' : α → Activity Answer}
    (h : ∀ a v, SameBut none none' (next a v) (next' a v)) (w : World) :
    SameBut none none' ((first >>= next) w) ((first >>= next') w) := by
  cases hfirst : first w with
  | mk ending m es =>
    rcases ending.returned_or_halts Answer with ⟨a, rfl⟩ | ⟨e, he⟩
    · rw [bind_of_returned hfirst, bind_of_returned hfirst]
      exact (h a _).behind m es
    · rw [bind_of_halts hfirst he, bind_of_halts hfirst he]
      exact .same _

theorem askAll_sameBut (ask : Server → RecordType → Activity Answer) (types : List RecordType)
    (none none' : Failure) (servers : List Server) (first : Option Failure) (w : World) :
    SameBut none none' (askAll ask types none servers first w)
      (askAll ask types none' servers first w) := by
  induction servers generalizing first w with
  | nil =>
    cases first with
    | none => exact .unknown 0 []
    | some f => exact .same _
  | cons server servers ih =>
    rw [askAll, askAll]
    refine SameBut.bind (fun row v => ?_) w
    rcases row with f | ⟨addrs, first⟩
    · exact .same _
    · dsimp only
      split
      · exact ih first v
      · exact .same _

end Servers

namespace Stub

open Activity DomainName Servers

variable {host other text : String} {name : DomainName}

theorem askServers_sameBut (s : Stub) (cx : Context) (family : Family) (host other : String)
    (target : Target) (w : World) :
    SameBut (.ofHost host .notFound) (.ofHost other .notFound)
      (s.askServers cx family host target w) (s.askServers cx family other target w) := by
  rw [askServers_apply, askServers_apply]
  have h := askAll_sameBut (s.query cx target) family.recordTypes (.ofHost host .notFound)
    (.ofHost other .notFound) (s.serverOrder w) .none w
  generalize hr : askAll (s.query cx target) family.recordTypes (.ofHost host .notFound)
    (s.serverOrder w) .none w = r at h
  generalize hr' : askAll (s.query cx target) family.recordTypes (.ofHost other .notFound)
    (s.serverOrder w) .none w = r' at h
  cases h with
  | same =>
    rw [bind_congr_first (hr.trans hr'.symm)]
    exact .same _
  | unknown m es =>
    rw [bind_of_returned hr, bind_of_returned hr']
    exact (SameBut.unknown 0 []).behind m es

/-- Servers are asked the same for both hosts, and what comes of it is the same. -/
structure AskedAlike (host other : String) (target : Target) : Prop where
  asks : ∀ (s : Stub) (cx : Context) (family : Family),
    s.lookupName cx family host = s.askServers cx family host target ∧
      s.lookupName cx family other = s.askServers cx family other target
  sameBut : ∀ (s : Stub) (cx : Context) (family : Family) (w : World),
    SameBut (.ofHost host .notFound) (.ofHost other .notFound) (s.lookupName cx family host w)
      (s.lookupName cx family other w)
  /-- Literal addresses are answered before anybody is asked. -/
  resolves : ∀ (s : Stub) (cx : Context) (network : String) (family : Family) (w : World),
    Family.ofNetwork? network = some family → Address.ofString? host = none →
      Address.ofString? other = none →
        SameBut (.ofHost host .notFound) (.ofHost other .notFound) (s.resolver cx network host w)
          (s.resolver cx network other w)

theorem askedAlike (h : ofHost? host = some (text, name)) (h' : ofHost? other = some (text, name)) :
    AskedAlike host other ⟨text, name⟩ where
  asks s cx family := ⟨lookupName_eq h, lookupName_eq h'⟩
  sameBut s cx family w := by
    rw [lookupName_eq h, lookupName_eq h']
    exact askServers_sameBut s cx family host other _ w
  resolves s cx network family w hf ha ha' := by
    rw [resolver_eq_askServers hf ha h, resolver_eq_askServers hf ha' h']
    exact askServers_sameBut s cx family host other _ w

end Stub

end HostLookup
