import Mathlib.Logic.Function.Iterate
import Datalog.Meaning.Closure

/-!
# Meaning/Naive — rounds of naive application

One naive round runs every clause against all the facts there are and adds what it derives; a
negated lookup is tested against the same facts.  No round knows what the round before has added.
-/

namespace Datalog

/-- **One naive round**: the facts, and whatever the clauses derive from all of them. -/
def Facts.naive (fns : Functions) (clauses : List Clause) (F : Facts) : Facts := fun r t =>
  F r t ∨ ∃ c ∈ clauses, c.head.relation = r ∧ c.Derives (.over fns F F) t

/-- **No clause asks for the absence of what a clause derives.** -/
def Clause.Static (clauses : List Clause) : Prop :=
  ∀ c ∈ clauses, ∀ g, .lookup g ∈ c.body → g.negated = true → ∀ k ∈ clauses,
    k.head.relation ≠ g.relation

namespace Facts

variable {fns : Functions} {clauses : List Clause} {start F : Facts}

theorem within_naive : F.Within (naive fns clauses F) := fun _ _ h => .inl h

/-- **Rounds only add.** -/
theorem naive_iterate_within {m n : Nat} (h : m ≤ n) :
    ((naive fns clauses)^[m] F).Within ((naive fns clauses)^[n] F) := by
  induction h with
  | refl => exact .refl _
  | step _ ih =>
    rw [Function.iterate_succ_apply']
    exact ih.trans within_naive

/-- Rounds add nothing but heads. -/
theorem naive_iterate_heads {n : Nat} {r : Relation} {t : Tuple}
    (h : (naive fns clauses)^[n] F r t) : F r t ∨ ∃ c ∈ clauses, c.head.relation = r := by
  induction n with
  | zero => exact .inl h
  | succ n ih =>
    rw [Function.iterate_succ_apply'] at h
    rcases h with h | ⟨c, hc, hr, _⟩
    · exact ih h
    · exact .inr ⟨c, hc, hr⟩

end Facts

end Datalog
