import Datalog.Relation
import Datalog.Term.Variables
import Datalog.Term.Text

/-!
# Rule/Basic — rules as they are written

`head :- literal, literal, ….` where a literal is an atom, a negated atom, an equation or a
disequation.  Arguments may nest constructors and calls as they like, and the literals may come in
any order that lets each variable be bound before it is needed.
-/

namespace Datalog

/-- An atom; `negated` asks for the absence of a fact. -/
structure Atom where
  relation : Relation
  args : Tuple
  negated : Bool := false
deriving DecidableEq, Inhabited

/-- A condition of a rule: an atom, or `lhs = rhs`, negated `lhs != rhs`. -/
inductive Literal where
  | atom (atom : Atom)
  | unify (lhs rhs : Term) (negated : Bool)
deriving DecidableEq, Inhabited

/-- **A rule**: its head holds whenever all of its body does. -/
structure Rule where
  head : Atom
  body : List Literal
deriving DecidableEq, Inhabited

/-- A mark in front of what is negated. -/
def Text.negated (negated : Bool) (text : String) : String :=
  if negated then "!" ++ text else text

/-- An equation, or the disequation. -/
def Text.comparison (lhs rhs : Term) (negated : Bool) : String :=
  lhs.text ++ (if negated then " != " else " = ") ++ rhs.text

namespace Atom

/-- The number of arguments is the relation's arity. -/
def HasArity (a : Atom) : Prop := a.args.length = a.relation.arity

/-- The arguments can be counted. -/
instance (a : Atom) : Decidable a.HasArity := inferInstanceAs (Decidable (_ = _))

/-- The variables of the arguments, one entry per occurrence. -/
def occurrences (a : Atom) : List Var := a.args.flatMap Term.occurrences

/-- An atom as it is shown, like a fact. -/
def text (a : Atom) : String := Text.negated a.negated (Tuple.text a.relation.name a.args)

end Atom

namespace Literal

/-- The variables of a literal, one entry per occurrence. -/
def occurrences : Literal → List Var
  | .atom a => a.occurrences
  | .unify l r _ => l.occurrences ++ r.occurrences

/-- A literal as it is shown. -/
def text : Literal → String
  | .atom a => a.text
  | .unify l r negated => Text.comparison l r negated

end Literal

namespace Rule

/-- The variables of the head and then of the body, one entry per occurrence. -/
def occurrences (r : Rule) : List Var := r.head.occurrences ++ r.body.flatMap Literal.occurrences

/-- A variable that the rule mentions once, so that its value is of no consequence. -/
def isSingleton (r : Rule) (v : Var) : Bool := r.occurrences.count v == 1

/-- `head.` or `head :- literal, literal.` on one line. -/
def text (r : Rule) : String :=
  let body := if r.body.isEmpty then "" else " :- " ++ ", ".intercalate (r.body.map Literal.text)
  r.head.text ++ body ++ "."

end Rule

end Datalog
