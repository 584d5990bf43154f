import HostLookup.Proofs.Address.RoundTrip
import HostLookup.Proofs.Config.Kept
import HostLookup.Proofs.Search.Candidates
import HostLookup.Proofs.Stub.Alike

/-!
Completed names. A host completed with an entry of a search list has the labels of the host and
behind them those of the entry, as long as there is room for all of them. So servers are asked for
it as they are for the same name with a dot at its end.
-/
set_option autoImplicit false

namespace HostLookup

namespace Search

open DomainName

variable {l : SearchList} {host entry text : String} {m n : DomainName}

theorem toList_complete (host entry : String) :
    (complete host entry).toList = host.toList ++ '.' :: entry.toList := by
  simp [complete]

theorem endsInDot_complete (hne : entry ≠ "") (hdot : endsInDot entry = false) :
    endsInDot (complete host entry) = false := by
  have hcs : entry.toList ≠ [] := fun hnil => hne (String.toList_inj.mp hnil)
  rw [endsInDot_eq_false_iff] at hdot ⊢
  rwa [toList_complete, List.getLast?_append_of_ne_nil _ (List.cons_ne_nil _ _),
    List.getLast?_cons_of_ne_nil hcs]

theorem complete_ne_empty (host entry : String) : complete host entry ≠ "" := by
  rw [ne_eq, ← String.toList_inj, toList_complete]
  exact List.append_ne_nil_of_right_ne_nil _ (List.cons_ne_nil _ _)

section

variable (hhost : ofString? host = some m) (hdot : endsInDot host = false)
variable (hentry : ofHost? entry = some (text, n)) (hdot' : endsInDot entry = false)
variable (hroom : (wire ⟨m.labels ++ n.labels⟩).length ≤ 255)
include hhost hdot hentry hdot' hroom

theorem ofString?_push_complete :
    ofString? ((complete host entry).push '.') = some ⟨m.labels ++ n.labels⟩ := by
  obtain ⟨⟨hne, _⟩, rfl, hname⟩ := ofHost?_eq_some_iff.mp hentry
  have hroot : entry.toList ++ ['.'] ≠ [] ++ ['.'] := by
    intro h
    exact hne (String.toList_inj.mp (List.append_cancel_right h))
  rw [dotted, hdot', ofString?_eq_some_iff] at hname
  rw [ofString?_eq_some_iff] at hhost ⊢
  rw [String.toList_push, toList_complete, List.append_assoc]
  exact hhost.append (endsInDot_eq_false_iff.mp hdot) (by simpa using hname) hroot hroom

/-- A completed host is asked for by its labels and those of the entry. -/
theorem ofHost?_complete : ofHost? (complete host entry) =
    some ((complete host entry).push '.', ⟨m.labels ++ n.labels⟩) := by
  have hopen : endsInDot (complete host entry) = false :=
    endsInDot_complete (ofHost?_eq_some_iff.mp hentry).1.1 hdot'
  refine ofHost?_eq_some_iff.mpr ⟨⟨complete_ne_empty host entry, ?_⟩, ?_, ?_⟩
  · intro hroot
    rw [hroot] at hopen
    cases hopen
  · rw [dotted, hopen]
    rfl
  · exact ofString?_push_complete hhost hdot hentry hdot' hroom

end

theorem complete_mem_candidates (he : entry ∈ l.entries) (h : isComplete host = false)
    (ndots : Nat) : complete host entry ∈ candidates l ndots host := by
  have hmem : complete host entry ∈ l.entries.map (complete host) := List.mem_map_of_mem he
  rw [candidates_relative h]
  split
  · exact List.mem_cons_of_mem host hmem
  · exact List.mem_append_left [host] hmem

theorem candidates_push_dot (l : SearchList) (ndots : Nat) (text : String) :
    candidates l ndots (text.push '.') = [text.push '.'] := by
  apply candidates_eq_singleton
  exact .inr (isComplete_iff.mpr (.inr (.inr ⟨text, rfl⟩)))

/-- A host completed with an entry of a search list stands for the labels of the host and behind
them those of the entry, and so does the text with a dot at its end. The first one is a candidate of
the host, the other one is its own only candidate, and servers are asked the same for both. -/
theorem complete_concatenates (hl : l.Made) (he : entry ∈ l.entries)
    (hhost : ofString? host = some m) (hdot : endsInDot host = false)
    (hentry : ofHost? entry = some (text, n))
    (hroom : (wire ⟨m.labels ++ n.labels⟩).length ≤ 255) :
    let full := (complete host entry).push '.'
    let name : DomainName := ⟨m.labels ++ n.labels⟩
    ofHost? (complete host entry) = some (full, name) ∧ ofHost? full = some (full, name) ∧
      name.wire = m.labels.flatMap Label.wire ++ n.wire ∧
      (∀ ndots, (Address.ofString? host = none → complete host entry ∈ candidates l ndots host) ∧
        candidates l ndots full = [full]) ∧
      Address.ofString? full = none ∧ Stub.AskedAlike (complete host entry) full ⟨full, name⟩ := by
  intro full name
  have hdot' : endsInDot entry = false := (hl.kept entry he).endsInDot_eq_false
  have hname : ofHost? (complete host entry) = some (full, name) :=
    ofHost?_complete hhost hdot hentry hdot' hroom
  have hopen : endsInDot (complete host entry) = false :=
    endsInDot_complete (ofHost?_eq_some_iff.mp hentry).1.1 hdot'
  have hfull : ofHost? full = some (full, name) :=
    (ofHost?_push_dot (complete_ne_empty host entry) hopen).trans hname
  refine ⟨hname, hfull, wire_append _ _, fun ndots => ⟨fun ha => ?_, candidates_push_dot l ndots _⟩,
    Address.ofString?_push_dot _, Stub.askedAlike hname hfull⟩
  exact complete_mem_candidates he ((isComplete_eq_endsInDot hhost ha).trans hdot) ndots

/-- Escaped dots do not come between the labels: `a\.b` and `c\.d` make a name of two labels. -/
theorem complete_concatenates_escaped :
    let list : SearchList := ⟨["c\\.d"]⟩
    let full := "a\\.b.c\\.d."
    let name : DomainName := ⟨[[97, 46, 98], [99, 46, 100]]⟩
    list.Made ∧ "c\\.d" ∈ list.entries ∧ ofString? "a\\.b" = some ⟨[[97, 46, 98]]⟩ ∧
      endsInDot "a\\.b" = false ∧ ofHost? "c\\.d" = some ("c\\.d.", ⟨[[99, 46, 100]]⟩) ∧
      name.wire.length ≤ 255 ∧ ofHost? "a\\.b.c\\.d" = some (full, name) ∧
      name.wire = [3, 97, 46, 98, 3, 99, 46, 100, 0] ∧
      Stub.AskedAlike "a\\.b.c\\.d" full ⟨full, name⟩ := by
  intro list full name
  have hpush : SearchList.empty.push? "C\\.D." = some list := by decide +kernel
  have hmem : "c\\.d" ∈ list.entries := by simp [list]
  have hhost : ofString? "a\\.b" = some ⟨[[97, 46, 98]]⟩ := by decide +kernel
  have hdot : endsInDot "a\\.b" = false := by decide +kernel
  have hentry : ofHost? "c\\.d" = some ("c\\.d.", ⟨[[99, 46, 100]]⟩) := by decide +kernel
  have hroom : name.wire.length ≤ 255 := by decide
  have hmade : list.Made := .pushed .empty hpush
  obtain ⟨hname, _, _, _, _, halike⟩ := complete_concatenates hmade hmem hhost hdot hentry hroom
  exact ⟨hmade, hmem, hhost, hdot, hentry, hroom, hname, by decide, halike⟩

end Search

end HostLookup
