import Datalog.Clause.Basic

/-!
# Clause/Rejection — why a rule or a fact is refused

A rejection holds the rule and the part of it that is at fault, with everything inlined so far
already in place; `message` is the wording.
-/

namespace Datalog

/-- **Why a rule, a fact or a clause with its indices is refused**, and the part that is at fault.
-/
inductive Rejection where
  /-- No step of the body binds these variables of the head. -/
  | unboundHead (rule : Rule) (vars : List Var)
  /-- Two different constructors were equated. -/
  | unsatisfiable (rule : Rule) (literal : Literal)
  /-- A disequation needs both of its sides bound. -/
  | unboundDisequation (rule : Rule) (literal : Literal)
  /-- The side that is not bound is neither a variable nor a constructor. -/
  | notInvertible (rule : Rule) (literal : Literal)
  /-- A negated atom would have to bind a variable. -/
  | unsafeNegation (rule : Rule) (atom : Atom)
  | arity (atom : Atom)
  /-- The head is negated, or its relation is not derived from below. -/
  | underivableHead (rule : Rule)
  | topDown (rule : Rule) (relation : Relation)
  | notGround (atom : Atom)
  /-- There are not as many indices, or split marks, as steps. -/
  | indexShape (clause : Clause) (found : Nat)
deriving DecidableEq, Inhabited

namespace Rejection

/-- A fault of one literal of a rule. -/
def literalMessage (rule : Rule) (problem culprit : String) : String :=
  "Problem simplifying this rule:\n" ++ rule.text ++ "\n" ++ problem ++ ": " ++ culprit

/-- A rule that bottom-up evaluation cannot run. -/
def unsupportedMessage (rule : Rule) (reason : String) : String :=
  "Rule cannot be evaluated bottom-up:\n" ++ rule.text ++ "\nReason: " ++ reason

/-- The wording, which shows the rule and what is wrong with it. -/
def message : Rejection → String
  | unboundHead rule vars =>
    "Unbound variables " ++ ", ".intercalate (vars.map Var.text) ++ " in head of rule:\n" ++
      rule.text
  | unsatisfiable rule l => literalMessage rule "Unsatisfiable unification conjunct" l.text
  | unboundDisequation rule l =>
    literalMessage rule "Negated unification over unbound variables" l.text
  | notInvertible rule l => literalMessage rule "Cannot invert unification conjunct" l.text
  | unsafeNegation rule a => literalMessage rule "Negated atom binds variables" a.text
  | arity a =>
    "Atom " ++ a.text ++ " has " ++ toString a.args.length ++
      " arguments but its relation has arity " ++ toString a.relation.arity
  | underivableHead rule =>
    unsupportedMessage rule (rule.head.text ++ " is not a derivable bottom-up relation")
  | topDown rule r => unsupportedMessage rule (r.name ++ " is a top-down relation")
  | notGround a => "Fact is not ground: " ++ a.text
  | indexShape clause found =>
    "Index data for rule has " ++ toString found ++ " positions but the body has "
      ++ toString clause.body.length ++ ":\n" ++ clause.text

end Rejection

end Datalog
