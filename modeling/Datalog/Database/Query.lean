import Datalog.Bindings
import Datalog.Rule.Basic
import Datalog.Store.Basic
import Datalog.Term.Variables

/-!
# Database/Query — asking for the instances of a pattern

A pattern is an atom.  An answer is a stored tuple that is an **instance** of it, given as the
bindings of the pattern's variables that make the two equal; a variable that occurs twice has to
stand for the same term both times.  A call in a pattern is not evaluated, it only equals itself.
-/

namespace Datalog

namespace Term

mutual

/-- **The bindings, extended so that the pattern becomes the term**, if there are any. -/
def matchWith? (b : Bindings) : (pattern term : Term) → Option Bindings
  | .var v, t =>
    match b.get? v with
    | some bound => if bound = t then some b else none
    | none => some (b.put v t)
  | .ctor f ps, .ctor g ts =>
    if f = g ∧ ps.length = ts.length then matchAll? b ps ts else none
  | p, t => if p = t then some b else none

/-- Matches the patterns one after the other, as many as there are terms for. -/
def matchAll? (b : Bindings) : (patterns terms : List Term) → Option Bindings
  | p :: ps, t :: ts => (matchWith? b p t).bind fun b => matchAll? b ps ts
  | _, _ => some b

end

end Term

namespace Store

/-- **The answers to a pattern**, in the order of the tuples. -/
def query (s : Store) (pattern : Atom) : List Bindings :=
  let key : Key := pattern.args.map fun t => if t.isGround then some t else none
  (Tuple.sort (s.lookup pattern.relation key none)).filterMap (Term.matchAll? ∅ pattern.args)

/-- The pattern has an answer. -/
def ask (s : Store) (pattern : Atom) : Bool := !(s.query pattern).isEmpty

end Store

end Datalog
