import Datalog.Evaluation.Conclusion

/-!
# Evaluation/Join — running the body of a clause

The body runs from left to right.  A positive lookup is a loop over the tuples found; any other step
either goes on or gives up the current combination.  Where more tuples are found than fit one batch,
the task keeps the first batch and every further one becomes a task of its own, with a copy of the
bindings.

The steps before the first positive lookup are the task's **approach**; what follows is its
**search**.
-/

namespace Datalog

namespace Work

variable (cx : Context) (task : Task)

/-- The tuples that a goal finds, as they are listed; one over new tuples reads the seed, if the
task has one. -/
def matching (slot : Slot) (goal : Goal) : Work (List Tuple) := do
  let w ← get
  let key ← ofExcept (goal.key cx.functions w.bindings)
  match goal.delta, task.seed with
  | true, some seed => return seed.filter key.agrees
  | _, _ => return cx.listing.lookup w.world.store goal.relation key slot.index

/-- **A step other than a positive lookup**; says whether the body goes on. -/
def perform (slot : Slot) : Work Bool := do
  let w ← get
  match slot.step with
  | .assign v t =>
    let b ← ofExcept (Step.performAssign cx.functions v t w.bindings)
    set { w with bindings := b }
    return true
  | .check l r negated => ofExcept (Step.performCheck cx.functions l r negated w.bindings)
  | .destruct t f ys =>
    match ← ofExcept (Step.performDestruct cx.functions t f ys w.bindings) with
    | some b =>
      set { w with bindings := b }
      return true
    | none => return false
  | .lookup goal =>
    let key ← ofExcept (goal.key cx.functions w.bindings)
    return !w.world.store.hasMatch goal.relation key slot.index

/-- How many tuples a task takes from this lookup. -/
def batchSize (slot : Slot) : Nat :=
  if slot.split then cx.settings.splitTaskSize else cx.settings.taskSize

/-- **Hands on all batches but the first**, which it returns. -/
def shareOut (slot : Slot) (goal : Goal) (rest : List Slot) (tuples : List Tuple) :
    Work (List Tuple) := do
  match batches (batchSize cx slot) tuples with
  | [] => return []
  | first :: others =>
    let bindings := (← get).bindings
    others.forM fun tuples =>
      spawn { task with resumption := some { goal, tuples, rest, bindings } }
    return first

/-- Binds a tuple found for the goal. -/
def take (goal : Goal) (tuple : Tuple) : Work Unit := do
  if cx.settings.recordWork then count fun c => { c with work := c.work + 1 }
  modify fun w => { w with bindings := goal.bind tuple w.bindings }

/-- **The search**: `found` runs once for every way to satisfy the slots. -/
def search (found : Work Unit) : List Slot → Work Unit
  | [] => found
  | slot :: rest =>
    match slot.step.positiveGoal? with
    | some goal => do
      let tuples ← within slot.step.blame (matching cx task slot goal)
      let tuples ← shareOut cx task slot goal rest tuples
      tuples.forM fun tuple => do
        take cx goal tuple
        search found rest
    | none => do
      if ← within slot.step.blame (perform cx slot) then search found rest

variable (failed : Bool)

/-- **Ends a task**: what is still batched is set off, also after a fault, but not after a crash. -/
def settle (work : Work Unit) : Work Unit := fun w =>
  let finish : Work Unit := do
    setOff cx task failed
    record cx task.clause
  match work w with
  | .ok _ w => finish w
  | .error (.fault fault) w => (do finish; throw (Abort.fault fault)) w
  | .error (.crash message) w => .error (.crash message) w

/-- The search over a batch of tuples found for a goal. -/
def resume (goal : Goal) (rest : List Slot) (tuples : List Tuple) : Work Unit :=
  settle cx task failed (tuples.forM fun tuple => do
    take cx goal tuple
    search cx task (conclude cx task failed) rest)

/-- **The approach**: the steps up to the first positive lookup, and then the search.  A body
without one holds for a single combination. -/
def approach : List Slot → Work Unit
  | [] => settle cx task failed (conclude cx task failed)
  | slot :: rest =>
    match slot.step.positiveGoal? with
    | some goal => do
      let tuples ← within slot.step.blame (matching cx task slot goal)
      record cx task.clause
      let tuples ← shareOut cx task slot goal rest tuples
      resume cx task failed goal rest tuples
    | none => do
      if ← within slot.step.blame (perform cx slot) then approach rest
      else record cx task.clause

end Work

/-- What a task does. -/
def Task.work (cx : Context) (task : Task) (failed : Bool) : Work Unit :=
  match task.resumption with
  | none => Work.approach cx task failed task.clause.body
  | some r => Work.resume cx task failed r.goal r.rest r.tuples

/-- **Runs a task**; its faults name the rule. -/
def Task.run (cx : Context) : Behaviour Task World := fun failed task world =>
  let bindings := (task.resumption.map (·.bindings)).getD ∅
  match task.work cx failed { world, bindings } with
  | .ok _ w => { world := w.world, spawned := w.spawned, result := .ok () }
  | .error abort w =>
    { world := w.world, spawned := w.spawned,
      result := .error (abort.within (.inRule task.clause.text)) }

end Datalog
