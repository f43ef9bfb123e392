import Datalog.Fault
import Datalog.Rule.Basic

/-!
# Clause/Basic — rules in canonical form

A **clause** is a rule that can be run from left to right: a head of terms, and a body of four kinds
of steps.  Each argument of a goal says what it is there for.

* `bound t` — a term whose variables earlier steps have bound: part of the lookup key;
* `free v` — a variable that this goal binds;
* `ignored v` — a variable that nothing else mentions, so its value is dropped.
-/

namespace Datalog

/-- An argument of a goal. -/
inductive Arg where
  | bound (term : Term)
  | free (var : Var)
  | ignored (var : Var)
deriving DecidableEq, Inhabited

/-- **A lookup**: tuples of the relation, of its newly derived part if `delta`, or their absence if
`negated`. -/
structure Goal where
  relation : Relation
  args : List Arg
  negated : Bool := false
  delta : Bool := false
deriving DecidableEq, Inhabited

/-- **A step of a body**, which passes bindings on or drops them. -/
inductive Step where
  /-- Binds the variable to the value of the term. -/
  | assign (var : Var) (value : Term)
  /-- Goes on if both sides have the same value, or different values if `negated`. -/
  | check (lhs rhs : Term) (negated : Bool)
  /-- Goes on if the value is the constructor with as many arguments, which the variables get. -/
  | destruct (scrutinee : Term) (symbol : String) (binders : List Var)
  | lookup (goal : Goal)
deriving DecidableEq, Inhabited

/-- **A head**: the fact that a complete match derives, before its terms are evaluated. -/
structure Head where
  relation : Relation
  args : Tuple
deriving DecidableEq, Inhabited

/-- **A clause**: its steps are taken from left to right, and the head is what comes of them. -/
structure Clause where
  head : Head
  body : List Step
deriving DecidableEq, Inhabited

/-! ## Variables and functions -/

namespace Arg

/-- The argument as a term. -/
def term : Arg → Term
  | bound t => t
  | free v | ignored v => .var v

/-- The argument is part of the lookup key. -/
def isBound : Arg → Bool
  | bound _ => true
  | _ => false

/-- The argument is a variable that the goal binds. -/
def isFree : Arg → Bool
  | free _ => true
  | _ => false

end Arg

namespace Goal

/-- What the goal asks for, whatever each argument is there for. -/
def terms (g : Goal) : Tuple := g.args.map Arg.term

/-- The positions whose values make up the lookup key. -/
def boundPositions (g : Goal) : List Nat :=
  (g.args.zipIdx.filter fun a => a.1.isBound).map Prod.snd

end Goal

namespace Step

/-- The goal of a lookup. -/
def goal? : Step → Option Goal
  | lookup g => some g
  | _ => none

/-- The goal of a lookup that enumerates tuples; a negated one only tests. -/
def positiveGoal? : Step → Option Goal
  | lookup g => if g.negated then none else some g
  | _ => none

/-- The variables of a step in first-occurrence order, ignored ones included. -/
def vars : Step → List Var
  | assign v t => (v :: t.occurrences).eraseDups
  | check l r _ => (l.occurrences ++ r.occurrences).eraseDups
  | destruct t _ ys => (t.occurrences ++ ys).eraseDups
  | lookup g => (g.terms.flatMap Term.occurrences).eraseDups

/-- A negated lookup binds nothing; after any other step its variables are bound. -/
def binds : Step → Bool
  | lookup g => !g.negated
  | _ => true

/-- The step evaluates a call of a function that `p` accepts. -/
def mentions (p : String → Bool) : Step → Bool
  | assign _ t => t.mentions p
  | check l r _ => l.mentions p || r.mentions p
  | destruct t _ _ => t.mentions p
  | lookup g => g.terms.any (Term.mentions p)

end Step

/-! ## Text -/

/-- A goal as it is shown; one over the newly derived tuples is marked `[delta]`. -/
def Goal.text (g : Goal) : String :=
  Text.negated g.negated
    (Tuple.text (if g.delta then g.relation.name ++ "[delta]" else g.relation.name) g.terms)

/-- A step as it is shown. -/
def Step.text : Step → String
  | assign v t => v.text ++ " := " ++ t.text
  | check l r negated => Text.comparison l r negated
  | destruct t f ys => t.text ++ " -> " ++ f ++ Text.parenthesized (ys.map Var.text)
  | lookup g => g.text

/-- A head as it is shown, like a fact. -/
def Head.text (h : Head) : String := Tuple.text h.relation.name h.args

/-- A fault of the step. -/
def Step.blame (s : Step) (fault : Fault) : Fault := .inLiteral s.text fault

/-- A fault of the head. -/
def Head.blame (h : Head) (fault : Fault) : Fault := .inLiteral h.text fault

/-- One step a line. -/
def Clause.text (c : Clause) : String :=
  let body := if c.body.isEmpty then "" else " :-\n\t" ++ ",\n\t".intercalate (c.body.map Step.text)
  c.head.text ++ body ++ "."

end Datalog
