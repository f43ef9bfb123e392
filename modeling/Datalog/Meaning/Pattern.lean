import Datalog.Bindings
import Datalog.Rule.Basic

/-!
# Meaning/Pattern — what a pattern asks for

A pattern asks for its **instances**, the tuples that it becomes when terms are put for its
variables.  An **answer** names these terms, one for each variable of the pattern.
-/

namespace Datalog

namespace Atom

variable (pattern : Atom) (t : Tuple)

/-- **The tuple is an instance of the pattern.** -/
def Instance : Prop := ∃ σ : Bindings, pattern.args.map (Term.substitute σ) = t

/-- **The bindings answer the pattern with the tuple**: they bind the pattern's variables and no
others, in the order in which these first occur, and put in place they give the tuple. -/
structure Answer (b : Bindings) : Prop where
  keys : b.keys = pattern.occurrences.eraseDups
  tuple : pattern.args.map (Term.substitute b) = t

end Atom

end Datalog
