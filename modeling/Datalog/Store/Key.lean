import Datalog.Term.Basic

/-!
# Store/Key — partial tuples to look facts up by
-/

namespace Datalog

/-- Per position the value asked for, or `none` where any will do. -/
abbrev Key := List (Option Term)

/-- **Agreement**: the tuple has the value asked for at every position that both have.  Neither
has to be as long as the other. -/
def Key.agrees : Key → Tuple → Bool
  | some k :: ks, t :: ts => k = t && Key.agrees ks ts
  | none :: ks, _ :: ts => Key.agrees ks ts
  | [], _ | _ :: _, [] => true

end Datalog
