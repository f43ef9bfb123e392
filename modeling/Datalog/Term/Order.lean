import Datalog.Term.Basic

/-!
# Term/Order — the order answers are sorted in

Variables come before constructors, constructors before literals, literals before calls.  Variables
compare by name and then by number, constructors and calls by symbol and then argument by argument,
literals as integers before strings before booleans.  A list that is a proper beginning of another
comes first, and strings compare by code point.
-/

namespace Datalog

/-- Variables by name, then by number. -/
def Var.compare (v w : Var) : Ordering :=
  (Ord.compare v.name w.name).then (Ord.compare v.number w.number)

/-- Integers before strings before truth values. -/
def Value.compare : Value → Value → Ordering
  | .int i, .int j => Ord.compare i j
  | .int _, _ => .lt
  | .str _, .int _ => .gt
  | .str s, .str t => Ord.compare s t
  | .str _, .bool _ => .lt
  | .bool b, .bool c => Ord.compare b c
  | .bool _, _ => .gt

mutual

/-- **The order of terms**, by kind first. -/
def Term.compare : Term → Term → Ordering
  | .var v, .var w => v.compare w
  | .var _, _ => .lt
  | .ctor _ _, .var _ => .gt
  | .ctor f as, .ctor g bs => (Ord.compare f g).then (Tuple.compare as bs)
  | .ctor _ _, _ => .lt
  | .lit _, .call _ _ => .lt
  | .lit v, .lit w => v.compare w
  | .lit _, _ => .gt
  | .call f as, .call g bs => (Ord.compare f g).then (Tuple.compare as bs)
  | .call _ _, _ => .gt

/-- The order of argument lists: the first difference decides. -/
def Tuple.compare : Tuple → Tuple → Ordering
  | [], [] => .eq
  | [], _ :: _ => .lt
  | _ :: _, [] => .gt
  | s :: ss, t :: ts => (Term.compare s t).then (Tuple.compare ss ts)

end

/-- **The tuples in increasing order**, repetitions kept. -/
def Tuple.sort (ts : List Tuple) : List Tuple :=
  ts.mergeSort fun s t => (Tuple.compare s t).isLE

end Datalog
