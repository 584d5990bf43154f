import HostLookup.Proofs.Search.Trials
import HostLookup.Resolver.Table

/-!
Looking up a host by its candidates. The candidates are distinct, as the entries of the search list
are; the inner resolver is asked for the first ones of them in turn. A host with one candidate is
passed on to the inner resolver.
-/
set_option autoImplicit false

namespace HostLookup

open Activity

namespace SearchList

theorem nodup_getD_push? {l : SearchList} (hl : l.entries.Nodup) (name : String) :
    ((l.push? name).getD l).entries.Nodup := by
  cases h : l.push? name with
  | none => exact hl
  | some l' => exact nodup_push? h hl

theorem nodup_foldl_push? {l : SearchList} (hl : l.entries.Nodup) (names : List String) :
    (names.foldl (fun l name => (l.push? name).getD l) l).entries.Nodup := by
  induction names generalizing l with
  | nil => exact hl
  | cons name names ih => exact ih (nodup_getD_push? hl name)

theorem nodup_ofValid (names : List String) : (ofValid names).entries.Nodup :=
  nodup_foldl_push? List.nodup_nil names

end SearchList

namespace Search

theorem complete_injective (host : String) : Function.Injective (complete host) := by
  intro a b h
  have htext := congrArg String.toList h
  simpa [complete, String.toList_inj] using htext

theorem complete_ne (host entry : String) : complete host entry ≠ host := by
  intro h
  have hlen := congrArg (fun s => s.toList.length) h
  simp [complete] at hlen

theorem host_notMem_completed (list : SearchList) (host : String) :
    host ∉ list.entries.map (complete host) := by
  intro hmem
  obtain ⟨entry, _, hentry⟩ := List.mem_map.mp hmem
  exact complete_ne host entry hentry

theorem nodup_candidates {list : SearchList} (h : list.entries.Nodup) (ndots : Nat)
    (host : String) : (candidates list ndots host).Nodup := by
  have hcompleted : (list.entries.map (complete host)).Nodup := h.map (complete_injective host)
  have hhost := host_notMem_completed list host
  unfold candidates
  split
  · exact List.nodup_singleton host
  · dsimp only
    split
    · exact List.nodup_cons.mpr ⟨hhost, hcompleted⟩
    · refine List.nodup_append.mpr ⟨hcompleted, List.nodup_singleton host, ?_⟩
      rintro a ha b hb rfl
      rw [List.mem_singleton.mp hb] at ha
      exact hhost ha

theorem candidates_ne_nil (list : SearchList) (ndots : Nat) (host : String) :
    candidates list ndots host ≠ [] := by
  unfold candidates
  split
  · exact List.cons_ne_nil _ _
  · dsimp only
    split
    · exact List.cons_ne_nil _ _
    · exact List.append_ne_nil_of_right_ne_nil _ (List.cons_ne_nil _ _)

theorem endsInDot_iff {host : String} :
    DomainName.endsInDot host = true ↔ ∃ text : String, host = text.push '.' := by
  rw [DomainName.endsInDot, beq_iff_eq]
  constructor
  · intro h
    obtain ⟨cs, hcs⟩ := List.getLast?_eq_some_iff.mp h
    refine ⟨.ofList cs, String.toList_inj.mp ?_⟩
    rw [String.toList_push, String.toList_ofList, hcs]
  · rintro ⟨text, rfl⟩
    rw [String.toList_push, List.getLast?_concat]

theorem isComplete_iff {host : String} : isComplete host = true ↔
    host = "" ∨ (∃ a, Address.ofString? host = some a) ∨ ∃ text : String, host = text.push '.' := by
  rw [isComplete, Bool.or_eq_true, Bool.or_eq_true, endsInDot_iff, beq_iff_eq,
    Option.isSome_iff_exists]
  tauto

theorem candidates_eq_singleton {list : SearchList} {host : String}
    (h : list.entries = [] ∨ isComplete host = true) (ndots : Nat) :
    candidates list ndots host = [host] := by
  unfold candidates
  split
  · rfl
  · rename_i hc
    rw [h.resolve_right hc]
    simp

/-- How looking up a host by its candidates can go. -/
inductive Searched (ask : String → Activity Answer) (cx : Context) (names : List String)
    (w : World) : Report Answer → Prop where
  | returned {log : List Trial} {answer : Answer} {m : Nat} {es : List Event} :
      Tries ask cx w log m es → InTurn names log (log.map Trial.name) →
      (∀ addrs, answer = .ok addrs ↔ ∃ t, log.getLast? = some t ∧ t.answer = .ok addrs) →
      (∀ f, answer = .error f → ∃ t, log.head? = some t ∧ t.answer = .error f) →
      Searched ask cx names w ⟨.returned answer, m, es⟩
  | halted {log : List Trial} {name : String} {d e : Ending Answer} {m k : Nat}
      {es fs : List Event} :
      Tries ask cx w log m es → InTurn names log (log.map Trial.name ++ [name]) →
      ask name (w.after m es) = ⟨d, k, fs⟩ → d.Halts e →
      Searched ask cx names w ⟨e, m + k, es ++ fs⟩

theorem Tried.searched {ask : String → Activity Answer} {cx : Context} {names : List String}
    {none : Failure} {w : World} {r : Report Answer} (hn : names ≠ [])
    (h : Tried ask cx names none .none w r) : Searched ask cx names w r := by
  cases h with
  | halted hs hi hpending he => exact .halted hs hi hpending he
  | @returned log answer m es hs hi hr =>
    refine .returned hs hi hr.ok_iff ?_
    intro f hf
    rcases hr.error f hf with ⟨rfl, _⟩ | ⟨t, g, ht, hg, rfl⟩
    · exact absurd rfl (hi.started hn)
    · exact ⟨t, ht, hg⟩

variable (s : Search)

theorem ask_apply (cx : Context) (network name : String) (w : World) :
    s.ask cx network name w =
      (s.inner cx network name w).behind 0 [⟨w.now, .asked network name⟩] := by
  have hrecord : record (.asked network name) w =
      ⟨.returned (), 0, [⟨w.now, .asked network name⟩]⟩ := rfl
  have hafter : w.after 0 [⟨w.now, .asked network name⟩] = w := by
    simp [World.after, World.cancelledBy, World.dialedBy]
  rw [ask, bind_of_returned hrecord, hafter]

theorem resolver_eq {cx : Context} {network host : String} {family : Family}
    (hf : Family.ofNetwork? network = some family) :
    s.resolver cx network host =
      tryAll (s.ask cx network) (isDone cx) (.ofHost host .notFound) none
        (candidates s.list s.ndots host) := by
  rw [resolver, Family.ofNetwork, hf]

theorem tryAll_singleton (ask : String → Activity Answer) (cx : Context) (none : Failure)
    (name : String) (w : World) :
    tryAll ask (isDone cx) none .none [name] w = ask name w := by
  cases hask : ask name w with
  | mk ending m es =>
    rcases ending.returned_or_halts Answer with ⟨answer, rfl⟩ | ⟨e, he⟩
    · cases answer with
      | ok addrs => exact tryAll_ok hask
      | error f =>
        rw [tryAll_error hask]
        split <;> simp [tryAll, Report.behind]
    · rw [tryAll, bind_of_halts hask he, he.eq]

/-- The inner resolver is asked for the candidates of the host in turn, each of them at most once
and for the same network. If the list is empty, or the host cannot be completed, the report is that of
the inner resolver. -/
theorem resolver_searches (inner : Resolver) (names : List String) (ndots : Nat) (cx : Context)
    (network host : String) (w : World) {family : Family}
    (hf : Family.ofNetwork? network = some family) :
    let s : Search := ⟨inner, .ofValid names, ndots⟩
    (candidates s.list ndots host).Nodup ∧
      Searched (s.ask cx network) cx (candidates s.list ndots host) w
        (s.resolver cx network host w) ∧
      (s.list.entries = [] ∨ host = "" ∨ (∃ a, Address.ofString? host = some a) ∨
          (∃ text : String, host = text.push '.') →
        s.resolver cx network host w =
          (inner cx network host w).behind 0 [⟨w.now, .asked network host⟩]) := by
  intro s
  refine ⟨nodup_candidates (SearchList.nodup_ofValid names) ndots host, ?_, ?_⟩
  · rw [resolver_eq s hf]
    exact (tryAll_tried _ cx _ none _ w).searched (candidates_ne_nil _ _ _)
  · intro h
    rw [← isComplete_iff] at h
    rw [resolver_eq s hf, candidates_eq_singleton h, tryAll_singleton, ask_apply]

/-- Of a host without dots, the completed name is tried before the host itself. -/
theorem resolver_searches_www :
    let s : Search := ⟨Table.resolver [("www", ⟨5, false, .ok [.v4 ⟨192, 0, 2, 1⟩]⟩)],
      .ofValid ["example.com"], 1⟩
    Family.ofNetwork? "ip" = some .any ∧
      candidates s.list s.ndots "www" = ["www.example.com", "www"] ∧
      Searched (s.ask (.ofToken (.root 0)) "ip") (.ofToken (.root 0)) ["www.example.com", "www"]
        .initial (s.resolver (.ofToken (.root 0)) "ip" "www" .initial) ∧
      (s.resolver (.ofToken (.root 0)) "ip" "www" .initial).elapsed = 5 := by
  intro s
  have hnames : candidates s.list s.ndots "www" = ["www.example.com", "www"] := by decide +kernel
  have h := (resolver_searches s.inner ["example.com"] 1 (.ofToken (.root 0)) "ip" "www" .initial
    rfl).2.1
  refine ⟨rfl, hnames, ?_, by decide +kernel⟩
  rw [← hnames]
  exact h

end Search

end HostLookup
