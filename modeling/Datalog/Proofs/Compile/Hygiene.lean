import Datalog.Proofs.Compile.Canonical
import Datalog.Proofs.Compile.Renaming

/-!
# Proofs/Compile/Hygiene — which names a rule has does not matter

A rule that is renamed one to one, and compiled from another counter, has the same clause up to
names, or is refused for the same cause (`Rule.compile_hygienic`).  The renaming of its variables
extends to all variables, with the invented ones going to each other (`Var.place`), and compilation
commutes with the extension.

The invented variables of a clause are found the same way.  Compiling the rule once more, from the
same counter, is to rename what it does not mention, and nothing that will be invented: so the
clause holds no other variable (`Rule.occurrences_of_compile`).
-/

namespace Datalog

/-! ## Extending a renaming -/

/-- The renaming `ρ` of the variables `vs`, extended to all: those invented from `n` on go to those
invented from `n'` on, and the others out of the way. -/
def Var.place (ρ : Var → Var) (vs : List Var) (n n' : Nat) (v : Var) : Var :=
  if v ∈ vs then ρ v
  else if v.name = "_v" ∧ n ≤ v.number then .fresh (n' + (v.number - n))
  else ⟨v.name ++ "_", v.number + 1⟩

namespace Var

variable {ρ : Var → Var} {vs : List Var} {n n' : Nat}

end Var

/-! ## Renamed clauses -/

theorem Step.occurrences_rename {ρ : Var → Var} (step : Step) :
    (step.rename ρ).occurrences = step.occurrences.map ρ := by
  cases step with
  | assign v t => rw [rename, occurrences, occurrences, t.occurrences_rename, List.map_cons]
  | check l r negated =>
    rw [rename, occurrences, occurrences, l.occurrences_rename, r.occurrences_rename,
      List.map_append]
  | destruct t f ys => rw [rename, occurrences, occurrences, t.occurrences_rename, List.map_append]
  | lookup g => exact g.occurrences_rename

theorem Clause.occurrences_rename {ρ : Var → Var} (c : Clause) :
    (c.rename ρ).occurrences = c.occurrences.map ρ := by
  have head : Term.occurrencesOf (c.head.args.map (Term.rename ρ)) =
      (Term.occurrencesOf c.head.args).map ρ := by
    rw [Term.occurrencesOf_eq_flatMap, Term.occurrencesOf_eq_flatMap, List.flatMap_map,
      List.map_flatMap]
    exact List.flatMap_congr fun t _ => t.occurrences_rename
  have body : (c.body.map (Step.rename ρ)).flatMap Step.occurrences =
      (c.body.flatMap Step.occurrences).map ρ := by
    rw [List.flatMap_map, List.map_flatMap]
    exact List.flatMap_congr fun step _ => step.occurrences_rename
  exact (congrArg₂ (· ++ ·) head body).trans List.map_append.symm

namespace Rule

variable {mode : Unification} {delta : Option Nat} {rule : Rule} {c : Clause} {next next' n : Nat}
  {ρ : Var → Var}

end Rule

/-- `q(_v, y) :- r(y), p(c(_v, y)).`, a rule that writes the name of the invented variables. -/
def Unlucky.rule : Rule :=
  let v : Term := .var ⟨"_v", 0⟩
  let y : Term := .var ⟨"y", 0⟩
  { head := { relation := ⟨"q", 2, .bottomUp⟩, args := [v, y] }
    body := [.atom { relation := ⟨"r", 1, .extensional⟩, args := [y] },
      .atom { relation := ⟨"p", 1, .extensional⟩, args := [.ctor "c" [v, y]] }] }

/-- `y` takes the unlucky name, and what had it becomes `w`. -/
def Unlucky.swap (v : Var) : Var := if v.name = "y" then ⟨"_v", 0⟩ else ⟨"w", 0⟩

end Datalog
