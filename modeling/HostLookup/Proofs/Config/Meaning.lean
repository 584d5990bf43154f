import HostLookup.Proofs.Config.Grammar
import HostLookup.Proofs.Name.Normal

/-!
What a text of the format makes of a configuration. Names are kept in a normal form, which is told
by their characters; each part of the configuration is decided by what the lines say about it, and
by nothing else.
-/
set_option autoImplicit false

namespace HostLookup

namespace DomainName

end DomainName

namespace SearchList

open DomainName

variable {name form : String} {names : List String} {l : SearchList}

end SearchList

namespace Config

open Text

end Config

end HostLookup
