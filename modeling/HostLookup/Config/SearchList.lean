import HostLookup.Name.Reader

/-!
Search lists: the names that relative host names are completed with. They are kept in lower case,
without dots at their end, and without repetitions.
-/
set_option autoImplicit false

namespace HostLookup

/-- Names to complete host names with, in the order they are tried. -/
structure SearchList where
  entries : List String
  deriving DecidableEq, Repr

namespace SearchList

def empty : SearchList := ⟨[]⟩

/-- The form in which a name is kept. -/
def normalize (name : String) : String :=
  String.ofList ((name.toList.reverse.dropWhile (· == '.')).reverse.map Char.toLower)

/-- Adds what is left of a valid name, unless that is nothing or in the list already. -/
def push? (l : SearchList) (name : String) : Option SearchList :=
  if (DomainName.ofString? name).isNone then none
  else
    let entry := normalize name
    if entry = "" ∨ entry ∈ l.entries then some l else some ⟨l.entries ++ [entry]⟩

/-- Adds names one by one; every one has to be valid. -/
def pushAll? (l : SearchList) (names : List String) : Option SearchList := names.foldlM push? l

/-- The list of the valid ones among some names. -/
def ofValid (names : List String) : SearchList :=
  names.foldl (fun l name => (l.push? name).getD l) empty

theorem nodup_push? {l l' : SearchList} {name : String} (h : l.push? name = some l')
    (hl : l.entries.Nodup) : l'.entries.Nodup := by
  rw [push?] at h
  split at h
  · simp at h
  · dsimp only at h
    split at h
    · cases h; exact hl
    · rename_i hn
      cases h
      rw [List.nodup_append]
      refine ⟨hl, by simp, fun a ha b hb => ?_⟩
      rw [List.mem_singleton.1 hb]
      exact fun e => hn (Or.inr (e ▸ ha))

theorem nodup_pushAll? {l l' : SearchList} {names : List String}
    (h : l.pushAll? names = some l') (hl : l.entries.Nodup) : l'.entries.Nodup := by
  induction names generalizing l with
  | nil => cases h; exact hl
  | cons name names ih =>
    obtain ⟨m, hm, h⟩ := Option.bind_eq_some_iff.1 h
    exact ih h (nodup_push? hm hl)

end SearchList

end HostLookup
