import Datalog.Meaning.Naive

/-!
# Meaning/Strata — the iterated fixpoint

A program of several strata closes the facts under one list of clauses after the other.  Absence
is absence for good: negated lookups are tested against a set of facts of their own, which is
meant to be the one in the end.
-/

namespace Datalog

namespace Facts

/-- **The least set of facts that contains `start` and is closed under the clauses**, with negated
lookups tested against `absent`. -/
def closureAgainst (fns : Functions) (clauses : List Clause) (absent start : Facts) : Facts :=
  fun r t => ∀ F : Facts, start.Within F → F.Closed fns clauses absent → F r t

/-- **The iterated fixpoint**: the facts are closed under one list of clauses after the other. -/
def iterated (fns : Functions) (absent : Facts) : List (List Clause) → Facts → Facts
  | [], F => F
  | clauses :: rest, F => iterated fns absent rest (closureAgainst fns clauses absent F)

end Facts

/-- **Strata in order**: no clause asks for the absence of what its stratum derives, and none
reads what a later stratum derives. -/
structure Clause.Stratified (strata : List (List Clause)) : Prop where
  static : ∀ clauses ∈ strata, Clause.Static clauses
  settled : strata.Pairwise fun earlier later => ∀ c ∈ earlier, ∀ g, .lookup g ∈ c.body →
    ∀ k ∈ later, k.head.relation ≠ g.relation

/-- **A program in order**, as its rules are written. -/
structure Rule.Stratified (program : List (List Rule)) : Prop where
  static : ∀ rules ∈ program, ∀ rule ∈ rules, ∀ a, .atom a ∈ rule.body → a.negated = true →
    a.relation ∉ rules.map (·.head.relation)
  settled : program.Pairwise fun earlier later => ∀ rule ∈ earlier, ∀ a, .atom a ∈ rule.body →
    a.relation ∉ later.map (·.head.relation)

end Datalog
