import Datalog.Function.Basic
import Datalog.Bindings
import Datalog.Term.Text

/-!
# Solver — deciding formulas, and remembering what was decided

A **solver** decides the conjunction of a list of assertions.  Rules reach it through two
functions: `is_sat`, which needs a verdict, and `is_sat_opt`, which has a term for giving up.  A
**memory** in front of a solver keeps the verdicts that are final: a query is asked again as long
as the solver has only failed or given up on it.
-/

namespace Datalog

/-- What a solver says; a model comes along only if it was asked for. -/
inductive Verdict where
  | sat (model : Option Bindings)
  | unsat
  | unknown
deriving DecidableEq, Inhabited

/-- A decision procedure; the flag asks for a model. -/
abbrev Solver := (assertions : List Term) → (wantModel : Bool) → Except Fault Verdict

namespace Solver

/-- A verdict, with the solver's own failure as a fault. -/
def verdict (solver : Solver) (formula : Term) : Except Abort Verdict :=
  (solver [formula] false).mapError .fault

/-- `is_sat(formula)`: true or false. -/
def isSat (solver : Solver) : Function :=
  { Function.unary "is_sat" fun formula => do
      match ← solver.verdict formula with
      | .sat _ => return .bool true
      | .unsat => return .bool false
      | .unknown => throw (.fault (.solverUnknown formula.text)) with
    costly := true }

/-- `is_sat_opt(formula)`: `some(true)`, `some(false)` or `none`. -/
def isSatOpt (solver : Solver) : Function :=
  { Function.unary "is_sat_opt" fun formula => do
      match ← solver.verdict formula with
      | .sat _ => return .ctor "some" [.bool true]
      | .unsat => return .ctor "some" [.bool false]
      | .unknown => return .ctor "none" [] with
    costly := true }

end Solver

/-- The registry with the two functions that ask `solver`. -/
def Functions.addSolver (fns : Functions) (solver : Solver) : Functions :=
  (fns.put "is_sat" solver.isSat).put "is_sat_opt" solver.isSatOpt

/-! ## Remembered verdicts -/

/-- The final verdicts so far, and how often a query was answered from them or had to be asked. -/
structure Solver.Memory where
  verdicts : Assoc (List Term × Bool) Verdict := ∅
  hits : Nat := 0
  asked : Nat := 0

/-- **Answers from memory if it can, otherwise asks**; only `sat` and `unsat` are kept, since a
later attempt may get further than one that gave up. -/
def Solver.Memory.check (memory : Solver.Memory) (solver : Solver) (assertions : List Term)
    (wantModel : Bool) : Except Fault Verdict × Solver.Memory :=
  match memory.verdicts.get? (assertions, wantModel) with
  | some verdict => (.ok verdict, { memory with hits := memory.hits + 1 })
  | none =>
    let memory := { memory with asked := memory.asked + 1 }
    match solver assertions wantModel with
    | .error fault => (.error fault, memory)
    | .ok .unknown => (.ok .unknown, memory)
    | .ok verdict =>
      (.ok verdict, { memory with verdicts := memory.verdicts.put (assertions, wantModel) verdict })

end Datalog
