import Datalog.Clause.Compile

/-!
# Meaning/Refusal — which rules are refused, and where

Whether a rule compiles can be read off the rule as it is written: a literal is looked at with the
variables `seen` in the literals before it, and neither what is inlined nor how variables are
numbered comes into it.  `Rule.refusal` is the first thing that is wrong with a rule, if anything
is; where compilation itself stops is `Rule.StopsAt`.
-/

namespace Datalog

/-- Why a rule is refused, without the text. -/
inductive Cause where
  | unboundHead
  | unsatisfiable
  | unboundDisequation
  | notInvertible
  | unsafeNegation
  | arity
  | underivableHead
  | topDown
  | notGround
  | indexShape
deriving DecidableEq

/-- Which part of a rule is refused. -/
inductive Site where
  | head
  | literal (i : Nat)
deriving DecidableEq

/-- The cause, without the parts of the rule that the rejection shows. -/
def Rejection.cause : Rejection → Cause
  | unboundHead .. => .unboundHead
  | unsatisfiable .. => .unsatisfiable
  | unboundDisequation .. => .unboundDisequation
  | notInvertible .. => .notInvertible
  | unsafeNegation .. => .unsafeNegation
  | arity .. => .arity
  | underivableHead .. => .underivableHead
  | topDown .. => .topDown
  | notGround .. => .notGround
  | indexShape .. => .indexShape

namespace Term

mutual

/-- **What is wrong with a pattern**: only variables and constructors can be matched. -/
def patternCause (seen : List Var) : Term → Option Cause
  | .var _ => none
  | .ctor _ args => patternsCause seen args
  | .lit _ | .call .. => some .notInvertible

/-- Patterns are matched one after the other; a term that has been seen is compared. -/
def patternsCause (seen : List Var) : List Term → Option Cause
  | [] => none
  | t :: ts => (if t.isBoundBy seen then none else patternCause seen t).or
      (patternsCause (seen ++ t.occurrences) ts)

end

mutual

/-- **What is wrong with an equation.**  A side that has been seen is matched against the other
one; two constructors are equated argument by argument. -/
def equationCause (seen : List Var) (l r : Term) : Option Cause :=
  match l.isBoundBy seen, r.isBoundBy seen with
  | true, true => none
  | false, true => l.patternCause seen
  | true, false => r.patternCause seen
  | false, false =>
    match l, r with
    | .ctor f as, .ctor g bs =>
      if f = g ∧ as.length = bs.length then equationsCause seen as bs else some .unsatisfiable
    | _, _ => some .notInvertible

/-- Terms at the same positions are equated one after the other. -/
def equationsCause (seen : List Var) : List Term → List Term → Option Cause
  | l :: ls, r :: rs => (equationCause seen l r).or
      (equationsCause (seen ++ (l.occurrences ++ r.occurrences)) ls rs)
  | _, _ => none

end

/-- **The arguments of an atom that keep their places, and the others**, which are matched
afterwards.  An argument keeps its place if it has been seen or is a variable that the atom
mentions for the first time; `met` lists those. -/
def places (seen : List Var) : (met : List Var) → List Term → List Term × List Term
  | _, [] => ([], [])
  | met, t :: ts =>
    if t.isBoundBy seen then (places seen met ts).map (t :: ·) id
    else match t.asVar? with
      | some v =>
        if v ∈ met then (places seen met ts).map id (t :: ·)
        else (places seen (v :: met) ts).map (t :: ·) id
      | none => (places seen met ts).map id (t :: ·)

end Term

/-- **What is wrong with an atom.**  A negated one mentions what has been seen and otherwise only
variables that occur nowhere else. -/
def Atom.cause (single : Var → Bool) (seen : List Var) (a : Atom) : Option Cause :=
  if ¬a.HasArity then some .arity
  else if a.relation.kind = .topDown then some .topDown
  else if a.negated && a.args.any fun t => !(t.isBoundBy seen || t.asVar?.any single) then
    some .unsafeNegation
  else
    let (kept, moved) := Term.places seen [] a.args
    Term.patternsCause (seen ++ Term.occurrencesOf kept) moved

/-- **What is wrong with a literal**, when the variables `seen` have occurred before it. -/
def Literal.cause (single : Var → Bool) (seen : List Var) : Literal → Option Cause
  | .atom a => a.cause single seen
  | .unify l r false => l.equationCause seen r
  | .unify l r true =>
    if l.isBoundBy seen && r.isBoundBy seen then none else some .unboundDisequation

/-- The first literal with something wrong; `i` numbers the first of them. -/
def Literal.refusal (single : Var → Bool) : (seen : List Var) → (i : Nat) → List Literal →
    Option (Site × Cause)
  | _, _, [] => none
  | seen, i, l :: ls =>
    match l.cause single seen with
    | some cause => some (.literal i, cause)
    | none => refusal single (seen ++ l.occurrences) (i + 1) ls

namespace Rule

/-- A head that cannot be derived, whatever the body. -/
def headRejection (r : Rule) : Option Rejection :=
  if ¬r.head.HasArity then some (.arity r.head)
  else if r.head.relation.kind ≠ .bottomUp ∨ r.head.negated then some (.underivableHead r)
  else none

/-- **The first thing that is wrong with a rule**: its head, a literal, or a variable of the head
that the body does not mention. -/
def refusal (r : Rule) : Option (Site × Cause) :=
  match r.headRejection with
  | some e => some (.head, e.cause)
  | none => (Literal.refusal r.isSingleton [] 0 r.body).or
      (if r.head.occurrences.all (r.body.flatMap Literal.occurrences).contains then none
        else some (.head, .unboundHead))

/-- **Compilation stops there**: at a literal, after all the literals before it, or at the head,
before the body or after it. -/
def StopsAt (mode : Unification) (delta : Option Nat) (rule : Rule) (next : Nat) (e : Rejection) :
    Site → Prop
  | .literal i => rule.headRejection = none ∧ ∃ l d d', rule.body[i]? = some l ∧
      ((rule.body.zipIdx.take i).forM fun (l, i) =>
        Compile.literal rule mode (delta = some i) l) { next } = .ok () d ∧
      Compile.literal rule mode (delta = some i) l d = .error e d'
  | .head => rule.headRejection = some e ∨ rule.headRejection = none ∧ ∃ d d',
      (rule.body.zipIdx.forM fun (l, i) =>
        Compile.literal rule mode (delta = some i) l) { next } = .ok () d ∧
      Compile.head rule d = .error e d'

end Rule

end Datalog
