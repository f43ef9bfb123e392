import Mathlib
import Datalog.Clause.Perform
import Datalog.Store.Basic

/-!
# Meaning/Loops — a body as nested loops

The plainest way to run a body over a store that does not change: each step maps bindings to the
list of bindings it leads to, a lookup scans its relation, and every branch has bindings of its
own.
-/

namespace Datalog

/-- What nested loops run over. -/
structure Loops where
  functions : Functions
  store : Store
  /-- What a lookup of new tuples reads; without a seed it reads the store. -/
  seed : Option (List Tuple) := none

namespace Loops

variable (loops : Loops)

/-- The tuples that a positive goal ranges over. -/
def range (g : Goal) : List Tuple :=
  match g.delta, loops.seed with
  | true, some seed => seed
  | _, _ => (loops.store.extent g.relation).tuples

/-- Where a step leads. -/
def next (b : Bindings) : Step → Except Abort (List Bindings)
  | .assign v t => do return [← Step.performAssign loops.functions v t b]
  | .check l r negated => do
    return if ← Step.performCheck loops.functions l r negated b then [b] else []
  | .destruct t f ys => do return (← Step.performDestruct loops.functions t f ys b).toList
  | .lookup g => do
    let key ← g.key loops.functions b
    if g.negated then
      return if (loops.store.extent g.relation).tuples.any key.agrees then [] else [b]
    else return ((loops.range g).filter key.agrees).map fun tuple => g.bind tuple b

/-- **Every way through the steps**, in the order of the loops. -/
def ways : List Step → Bindings → Except Abort (List Bindings)
  | [], b => .ok [b]
  | step :: rest, b => do
    return (← (← loops.next b step).mapM (ways rest)).flatten

/-- **How many tuples the loops bind**: every tuple that a lookup finds, on every way that has come
to it. -/
def bound : List Step → Bindings → Nat
  | [], _ => 0
  | step :: rest, b =>
    match loops.next b step with
    | .ok bs => (bs.map fun c => (if step.positiveGoal?.isSome then 1 else 0) + bound rest c).sum
    | .error _ => 0

/-- **The complete matches of a clause**: the ends of the ways through its body, each with the
values of the head. -/
def complete (c : Clause) : Except Abort (List (Bindings × Tuple)) := do
  (← loops.ways c.body ∅).mapM fun b => do
    return (b, ← Tuple.evaluate b loops.functions c.head.args)

/-- The tuples that a clause derives, one for each way through its body. -/
def derived (c : Clause) : Except Abort (List Tuple) := do
  (← loops.ways c.body ∅).mapM fun b => Tuple.evaluate b loops.functions c.head.args

end Loops

end Datalog
