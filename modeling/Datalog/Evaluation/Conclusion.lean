import Datalog.Evaluation.Task

/-!
# Evaluation/Conclusion — what becomes of a derived fact

A fact that is new to a relation whose tuples set off clauses has to reach each of those clauses
once.  Below the highest generation it joins the task's **batch**, which is turned into tasks of
the next generation when it is full and when the task ends; at the highest generation it waits in
the **delta** for the next round.
-/

namespace Datalog

namespace Work

variable (cx : Context) (task : Task) (failed : Bool)

/-- **Sets off the clauses for the batch**, unless some task has failed. -/
def setOff : Work Unit := do
  let batch := (← get).batch
  unless batch.isEmpty || failed do
    modify fun w => { w with batch := [] }
    (cx.stratum.firedBy task.clause.head.relation).forM fun clause =>
      spawn { clause, seed := some batch, generation := task.generation + 1 }

/-- Adds a tuple of the head's relation to the store; says whether it was new. -/
def store (tuple : Tuple) : Work Bool := do
  let w ← get
  match w.world.store.add task.clause.head.relation tuple with
  | (store, insertion) =>
    set { w with world.store := store }
    match insertion with
    | .added => return true
    | .present => return false
    | .misfit misfit => throw (.crash misfit.message)

/-- The line about a new tuple of a tracked relation. -/
def echo (tuple : Tuple) : Work Unit :=
  let r := task.clause.head.relation
  if r ∈ cx.tracked then
    modify fun w => { w with
      world.echoed := ("[TRACKED] " ++ Tuple.text r.name tuple) :: w.world.echoed }
  else return

/-- Keeps a new tuple for the clauses it sets off. -/
def keep (tuple : Tuple) : Work Unit := do
  let r := task.clause.head.relation
  if cx.stratum.recursive.contains r then
    if task.generation < cx.settings.maxGeneration then
      modify fun w => { w with batch := w.batch ++ [tuple] }
      if cx.settings.eagerBatchSize ≤ (← get).batch.length then setOff cx task failed
    else
      modify fun w => { w with
        world.delta := w.world.delta.alter r fun tuples => tuple :: tuples.getD [] }

/-- **Concludes the head** from a complete match: its values become a fact. -/
def conclude : Work Unit := do
  let head := task.clause.head
  let bindings := (← get).bindings
  let tuple ← within head.blame (ofExcept (Tuple.evaluate bindings cx.functions head.args))
  if ← store task tuple then
    count fun c => { c with newFacts := c.newFacts + 1 }
    echo cx task tuple
    keep cx task failed tuple
  else if cx.settings.recordWork then
    count fun c => { c with duplicates := c.duplicates + 1 }

end Work

end Datalog
