import Datalog.Meaning.Facts
import Datalog.Meaning.Value
import Datalog.Rule.Basic

/-!
# Meaning/Rule — what a written rule says

A rule is read without any order of evaluation: an assignment of values to its variables satisfies
the body or it does not, and where it does, the head's values are derived.  Singleton variables of
a negated atom stand for anything at all.
-/

namespace Datalog

/-- An assignment of terms to variables. -/
abbrev Assignment := Var → Term

/-- The values that an atom's arguments have under the assignment. -/
def Atom.ValuesAre (fns : Functions) (ρ : Assignment) (a : Atom) (tuple : Tuple) : Prop :=
  Term.valuesIn (.total ρ) fns a.args = .ok tuple

/-- The tuple has the atom's values at every position but those of singleton variables. -/
def Atom.Meets (fns : Functions) (ρ : Assignment) (isSingleton : Var → Bool) (a : Atom)
    (tuple : Tuple) : Prop :=
  ∃ values : Tuple, a.ValuesAre fns ρ values ∧
    ∀ (i : Nat) (arg value stored : Term), a.args[i]? = some arg → values[i]? = some value →
      tuple[i]? = some stored → (∃ v, arg = .var v ∧ isSingleton v = true) ∨ value = stored

/-- **The assignment satisfies the literal.** -/
def Literal.Holds (fns : Functions) (facts : Facts) (isSingleton : Var → Bool) (ρ : Assignment) :
    Literal → Prop
  | .unify l r negated =>
    ∃ x y, l.valueIn (.total ρ) fns = .ok x ∧ r.valueIn (.total ρ) fns = .ok y ∧
      (if negated then x ≠ y else x = y)
  | .atom a =>
    if a.negated then ∀ tuple, facts a.relation tuple → ¬a.Meets fns ρ isSingleton tuple
    else ∃ tuple, a.ValuesAre fns ρ tuple ∧ facts a.relation tuple

/-- **The rule derives the tuple**: some assignment of values satisfies the body and gives the
head the tuple as its values. -/
def Rule.Derives (fns : Functions) (facts : Facts) (rule : Rule) (tuple : Tuple) : Prop :=
  ∃ ρ : Assignment, (∀ v ∈ rule.occurrences, (ρ v).isValue) ∧
    (∀ l ∈ rule.body, l.Holds fns facts rule.isSingleton ρ) ∧ rule.head.ValuesAre fns ρ tuple

end Datalog
