import Datalog.Term.Basic

/-!
# Term/Variables — what occurs in a term

Two lists say all there is to say: `occurrences`, the variables from left to right with
repetitions, and `functions`, the names called.  Being ground, being bound by a set of variables,
the variables in first-occurrence order and the number of times each one occurs are all read off
them.
-/

namespace Datalog

namespace Term

mutual

/-- The variables of a term from left to right, one entry per occurrence. -/
def occurrences : Term → List Var
  | .var v => [v]
  | .lit _ => []
  | .ctor _ args | .call _ args => occurrencesOf args

/-- The variables of an argument list from left to right. -/
def occurrencesOf : List Term → List Var
  | [] => []
  | t :: ts => t.occurrences ++ occurrencesOf ts

end

theorem occurrencesOf_eq_flatMap : ∀ ts : List Term, occurrencesOf ts = ts.flatMap occurrences
  | [] => rfl
  | t :: ts => by simp [occurrencesOf, occurrencesOf_eq_flatMap ts]

mutual

/-- The functions a term calls, outermost first. -/
def functions : Term → List String
  | .var _ | .lit _ => []
  | .ctor _ args => functionsOf args
  | .call f args => f :: functionsOf args

/-- The functions the terms of an argument list call. -/
def functionsOf : List Term → List String
  | [] => []
  | t :: ts => t.functions ++ functionsOf ts

end

theorem functionsOf_eq_flatMap : ∀ ts : List Term, functionsOf ts = ts.flatMap functions
  | [] => rfl
  | t :: ts => by simp [functionsOf, functionsOf_eq_flatMap ts]

/-- The variables of a term, in the order in which they first occur. -/
def vars (t : Term) : List Var := t.occurrences.eraseDups

/-- Free of variables; calls are allowed. -/
def isGround (t : Term) : Bool := t.occurrences.isEmpty

/-- Free of calls. -/
def isCallFree (t : Term) : Bool := t.functions.isEmpty

/-- **A value**: a term with nothing left to look up and nothing left to evaluate. -/
def isValue (t : Term) : Bool := t.isGround && t.isCallFree

/-- Every variable of the term is in `bound`. -/
def isBoundBy (bound : List Var) (t : Term) : Bool := t.occurrences.all (bound.contains ·)

/-- The term calls a function that `p` accepts. -/
def mentions (p : String → Bool) (t : Term) : Bool := t.functions.any p

end Term

/-- How often each variable occurs, in first-occurrence order. -/
def tally (vs : List Var) : List (Var × Nat) := vs.eraseDups.map fun v => (v, vs.count v)

end Datalog
