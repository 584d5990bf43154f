import HostLookup.Resolver.Literal

/-!
A resolver that answers from a table of names, each of which may take its time and may cancel the
context of the lookup.
-/
set_option autoImplicit false

namespace HostLookup

namespace Table

/-- What is known of a name. -/
structure Entry where
  delay : Nat
  /-- Whether the lookup's context is cancelled after the delay. -/
  cancels : Bool
  result : Except Detail (List Address)

/-- Names that are not in the table do not exist. -/
def unknown : Entry := ⟨0, false, .error (.of .notFound)⟩

/-- Answers from a table, by names exactly as they are asked for. -/
def resolver (table : List (String × Entry)) : Resolver := fun cx _ host => do
  let entry := (table.lookup host).getD unknown
  Activity.sleep entry.delay
  if entry.cancels then Activity.record (.cancelled cx.token.id)
  return entry.result.mapError fun d => ⟨.host host, d⟩

end Table

end HostLookup
