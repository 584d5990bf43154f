import HostLookup.Proofs.Search.Lookup

/-!
When a lookup reports that there is no such host. As the first failure is the result, this is said
of the first candidate, and nothing is said of the failures of the others: these may be temporary,
and the last one may be final or due to the context.
-/
set_option autoImplicit false

namespace HostLookup.Search

/-- There is no such host. -/
def Denies (answer : Answer) : Prop := ∃ f, answer = .error f ∧ f.isNotFound = true

namespace InTurn

variable {names : List String} {log : List Trial} {t : Trial}

theorem goesOn_of_lt (h : InTurn names log (log.map Trial.name)) {before : List Trial}
    (ht : before ++ [t] <+: log) (hlt : before.length + 1 < log.length) : t.goesOn = true := by
  have hlen := h.isPrefix.length_le
  rw [List.length_map] at hlen
  refine (h.next_iff before t ht (Nat.lt_of_lt_of_le hlt hlen)).mp ?_
  rwa [List.length_map]

theorem goesOn_of_mem_dropLast (h : InTurn names log (log.map Trial.name))
    (ht : t ∈ log.dropLast) : t.goesOn = true := by
  obtain ⟨before, after, hlog⟩ := List.append_of_mem ht
  have hbegins : before ++ [t] <+: log.dropLast := by
    rw [hlog]
    exact (List.prefix_append_right_inj before).mpr (List.prefix_append [t] after)
  have hlen := congrArg List.length hlog
  rw [List.length_dropLast, List.length_append, List.length_cons] at hlen
  exact h.goesOn_of_lt (hbegins.trans (List.dropLast_prefix log)) (by omega)

theorem getLast?_of_not_goesOn (h : InTurn names log (log.map Trial.name)) (hmem : t ∈ log)
    (ht : t.goesOn = false) : log.getLast? = some t := by
  obtain ⟨front, u, rfl⟩ := (log.eq_nil_or_concat).resolve_left (List.ne_nil_of_mem hmem)
  rw [List.concat_eq_append] at *
  rcases List.mem_append.mp hmem with hfront | hlast
  · have hgoes := h.goesOn_of_mem_dropLast (by rwa [List.dropLast_concat])
    rw [ht] at hgoes
    cases hgoes
  · rw [List.mem_singleton.mp hlast, List.getLast?_concat]

theorem exhausted_or_stopped (h : InTurn names log (log.map Trial.name)) (hn : names ≠ []) :
    log.map Trial.name = names ∨ ∃ t, log.getLast? = some t ∧ t.goesOn = false := by
  rcases Nat.lt_or_ge log.length names.length with hlt | hge
  · have hne : log ≠ [] := by
      rintro rfl
      exact h.started hn rfl
    obtain ⟨before, t, rfl⟩ := log.eq_nil_or_concat.resolve_left hne
    rw [List.concat_eq_append] at *
    refine .inr ⟨t, by simp, ?_⟩
    have hnext := h.next_iff before t (List.prefix_refl _) (by simpa using hlt)
    rw [← Bool.not_eq_true, ← hnext]
    simp
  · exact .inl (h.isPrefix.eq_of_length_le (by simpa using hge))

end InTurn

theorem Trial.not_goesOn_of_ok {t : Trial} {addrs : List Address} (h : t.answer = .ok addrs) :
    t.goesOn = false := by
  simp [goesOn, failure?, h]

/-- The last trial may not be followed by another one: its failure is final for the lookup, or the
context was done. -/
def Trial.Stops (t : Trial) : Prop :=
  ∃ f, t.answer = .error f ∧ (Search.goesOn f = false ∨ t.finished = true)

theorem Trial.stops_of_not_goesOn {t : Trial} {f : Failure} (hf : t.answer = .error f)
    (h : t.goesOn = false) : t.Stops := by
  have hgoes : t.goesOn = (Search.goesOn f && !t.finished) := by
    simp [goesOn, failure?, hf]
  rw [hgoes, Bool.and_eq_false_iff, Bool.not_eq_false'] at h
  exact ⟨f, hf, h⟩

/-- Some trials deny a host: the first name does not exist, and no name has addresses. -/
structure Denied (log : List Trial) : Prop where
  first : ∃ t, log.head? = some t ∧ Denies t.answer
  unanswered : ∀ t ∈ log, ∀ addrs, t.answer ≠ .ok addrs

theorem denies_iff {names : List String} {log : List Trial} {answer : Answer}
    (hi : InTurn names log (log.map Trial.name))
    (hok : ∀ addrs, answer = .ok addrs ↔ ∃ t, log.getLast? = some t ∧ t.answer = .ok addrs)
    (herror : ∀ f, answer = .error f → ∃ t, log.head? = some t ∧ t.answer = .error f) :
    Denies answer ↔ Denied log := by
  constructor
  · rintro ⟨f, rfl, hf⟩
    obtain ⟨t, ht, hanswer⟩ := herror f rfl
    refine ⟨⟨t, ht, f, hanswer, hf⟩, ?_⟩
    intro u hu addrs haddrs
    have hlast := hi.getLast?_of_not_goesOn hu (Trial.not_goesOn_of_ok haddrs)
    cases (hok addrs).mpr ⟨u, hlast, haddrs⟩
  · rintro ⟨⟨t, ht, f, hf, hnotFound⟩, hunanswered⟩
    cases answer with
    | ok addrs =>
      obtain ⟨u, hu, haddrs⟩ := (hok addrs).mp rfl
      exact absurd haddrs (hunanswered u (List.mem_of_getLast? hu) addrs)
    | error g =>
      obtain ⟨u, hu, hg⟩ := herror g rfl
      obtain rfl : u = t := Option.some_inj.mp (hu.symm.trans ht)
      rw [hf] at hg
      exact ⟨g, rfl, Except.error.inj hg ▸ hnotFound⟩

/-- A lookup that returns reports that there is no such host exactly if that is the failure of the
first candidate and no candidate that was asked for has addresses. This is then the failure that is
reported, all candidates but the last one were followed by the next one, and none is left unless the
last one asked for stopped the lookup. -/
theorem resolver_denies_iff (s : Search) (cx : Context) (network host : String) (w : World)
    {family : Family} (hf : Family.ofNetwork? network = some family) {answer : Answer} {m : Nat}
    {es : List Event} (h : s.resolver cx network host w = ⟨.returned answer, m, es⟩) :
    ∃ log, Tries (s.ask cx network) cx w log m es ∧
      log.map Trial.name <+: candidates s.list s.ndots host ∧
      (Denies answer ↔ Denied log) ∧
      (Denies answer → (∃ t, log.head? = some t ∧ t.answer = answer) ∧
        (∀ t ∈ log.dropLast, t.goesOn = true) ∧
        (log.map Trial.name = candidates s.list s.ndots host ∨
          ∃ t, log.getLast? = some t ∧ t.Stops)) := by
  have hn := candidates_ne_nil s.list s.ndots host
  rw [resolver_eq s hf] at h
  have hs := (tryAll_tried (s.ask cx network) cx (.ofHost host .notFound) none
    (candidates s.list s.ndots host) w).searched hn
  rw [h] at hs
  cases hs with
  | halted _ _ _ hd => cases hd
  | @returned log _ _ _ hs hi hok herror =>
    have hiff := denies_iff hi hok herror
    refine ⟨log, hs, hi.isPrefix, hiff, ?_⟩
    intro hdenies
    have hdenied := hiff.mp hdenies
    obtain ⟨f, rfl, _⟩ := hdenies
    refine ⟨herror f rfl, fun t => hi.goesOn_of_mem_dropLast, ?_⟩
    · refine (hi.exhausted_or_stopped hn).imp_right ?_
      rintro ⟨t, ht, hgoes⟩
      refine ⟨t, ht, ?_⟩
      cases hanswer : t.answer with
      | ok addrs => exact absurd hanswer (hdenied.unanswered t (List.mem_of_getLast? ht) addrs)
      | error g => exact Trial.stops_of_not_goesOn hanswer hgoes

/-- A search list over a resolver that knows one name, for which its server fails for the moment. -/
def faltering : Search where
  inner := Table.resolver
    [("www.example.net", ⟨0, false, .error (.flagged (.serverMisbehaving .serverFailure) true)⟩)]
  list := .ofValid ["example.com", "example.net"]
  ndots := 1

theorem faltering_candidates :
    candidates faltering.list faltering.ndots "www" =
      ["www.example.com", "www.example.net", "www"] := by
  decide +kernel

theorem faltering_answer : faltering.resolver (.ofToken (.root 0)) "ip" "www" .initial =
    ⟨.returned (.error (.ofHost "www.example.com" .notFound)), 0,
      [⟨0, .asked "ip" "www.example.com"⟩, ⟨0, .asked "ip" "www.example.net"⟩,
        ⟨0, .asked "ip" "www"⟩]⟩ := by
  have hnetwork : Family.ofNetwork? "ip" = some .any := rfl
  rw [resolver_eq _ hnetwork, faltering_candidates]
  rfl

theorem resolver_denies_iff_faltering :
    ∃ log, Tries (faltering.ask (.ofToken (.root 0)) "ip") (.ofToken (.root 0)) .initial log 0
        [⟨0, .asked "ip" "www.example.com"⟩, ⟨0, .asked "ip" "www.example.net"⟩,
          ⟨0, .asked "ip" "www"⟩] ∧
      Denied log ∧
      ∃ t, log.head? = some t ∧ t.answer = .error (.ofHost "www.example.com" .notFound) := by
  have hnetwork : Family.ofNetwork? "ip" = some .any := rfl
  obtain ⟨log, hs, _, hiff, hdenies⟩ := resolver_denies_iff faltering (.ofToken (.root 0)) "ip"
    "www" .initial hnetwork faltering_answer
  have hdenied : Denies (.error (.ofHost "www.example.com" .notFound)) := ⟨_, rfl, rfl⟩
  exact ⟨log, hs, hiff.mp hdenied, (hdenies hdenied).1⟩

/-- All candidates were asked for, and that there is no such host is reported although one of them
failed for the moment. -/
theorem denies_despite_temporary_failure :
    let first : Trial := ⟨"www.example.com", .error (.ofHost "www.example.com" .notFound), false⟩
    let second : Trial := ⟨"www.example.net",
      .error ⟨.host "www.example.net", .flagged (.serverMisbehaving .serverFailure) true⟩, false⟩
    let third : Trial := ⟨"www", .error (.ofHost "www" .notFound), false⟩
    ∃ es, Tries (faltering.ask (.ofToken (.root 0)) "ip") (.ofToken (.root 0)) .initial
        [first, second, third] 0 es ∧
      faltering.resolver (.ofToken (.root 0)) "ip" "www" .initial =
        ⟨.returned first.answer, 0, es⟩ ∧
      Denies first.answer ∧ ¬ Denies second.answer := by
  intro first second third
  have hask : ∀ t ∈ [first, second, third], ∀ w,
      faltering.ask (.ofToken (.root 0)) "ip" t.name w =
        ⟨.returned t.answer, 0, [⟨w.now, .asked "ip" t.name⟩]⟩ := by
    intro t ht w
    simp only [List.mem_cons, List.not_mem_nil, or_false] at ht
    rcases ht with rfl | rfl | rfl <;> rfl
  have hs : Tries (faltering.ask (.ofToken (.root 0)) "ip") (.ofToken (.root 0)) .initial
      [first, second, third] (0 + (0 + 0)) ([⟨0, .asked "ip" first.name⟩] ++
        ([⟨0, .asked "ip" second.name⟩] ++ [⟨0, .asked "ip" third.name⟩])) :=
    .cons (hask first (by simp) _) rfl
      (.cons (hask second (by simp) _) rfl (.singleton (hask third (by simp) _) rfl))
  refine ⟨_, hs, faltering_answer, ⟨_, rfl, rfl⟩, ?_⟩
  rintro ⟨f, hf, hnotFound⟩
  cases hf
  cases hnotFound

end HostLookup.Search
