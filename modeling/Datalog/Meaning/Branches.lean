import Datalog.Evaluation.Join

/-!
# Meaning/Branches — tasks whose branches have bindings of their own

A worker overwrites one set of bindings: what an abandoned branch has bound stays there, and a batch
that is handed on takes a copy of everything along.  Here every branch is handed the bindings that
the steps on the way to it have made, and whenever a step is taken the worker holds these and no
others.
-/

namespace Datalog

namespace Work

/-- Goes on with these bindings, whatever the worker held. -/
def hold (bindings : Bindings) : Work Unit := modify fun w => { w with bindings }

variable (cx : Context) (task : Task)

/-- **The search**, from the bindings of the branch. -/
def searchOwn (found : Work Unit) : List Slot → Bindings → Work Unit
  | [], b => do
    hold b
    found
  | slot :: rest, b =>
    match slot.step.positiveGoal? with
    | some goal => do
      hold b
      let tuples ← within slot.step.blame (matching cx task slot goal)
      let tuples ← shareOut cx task slot goal rest tuples
      tuples.forM fun tuple => do
        hold b
        take cx goal tuple
        searchOwn found rest (goal.bind tuple b)
    | none => do
      hold b
      if ← within slot.step.blame (perform cx slot) then searchOwn found rest (← get).bindings

variable (failed : Bool)

/-- The search over a batch of tuples found for a goal, from the bindings that led to the goal. -/
def resumeOwn (goal : Goal) (rest : List Slot) (tuples : List Tuple) (b : Bindings) : Work Unit :=
  settle cx task failed (tuples.forM fun tuple => do
    hold b
    take cx goal tuple
    searchOwn cx task (conclude cx task failed) rest (goal.bind tuple b))

/-- The approach. -/
def approachOwn : List Slot → Bindings → Work Unit
  | [], b => settle cx task failed do
    hold b
    conclude cx task failed
  | slot :: rest, b =>
    match slot.step.positiveGoal? with
    | some goal => do
      hold b
      let tuples ← within slot.step.blame (matching cx task slot goal)
      record cx task.clause
      let tuples ← shareOut cx task slot goal rest tuples
      resumeOwn cx task failed goal rest tuples b
    | none => do
      hold b
      if ← within slot.step.blame (perform cx slot) then approachOwn rest (← get).bindings
      else record cx task.clause

end Work

/-- What the task does with bindings of its own. -/
def Task.workOwn (cx : Context) (task : Task) (failed : Bool) : Work Unit :=
  match task.resumption with
  | none => Work.approachOwn cx task failed task.clause.body ∅
  | some r => Work.resumeOwn cx task failed r.goal r.rest r.tuples r.bindings

/-- **Runs a task**, every branch with bindings of its own. -/
def Task.runOwn (cx : Context) : Behaviour Task World := fun failed task world =>
  match task.workOwn cx failed { world, bindings := ∅ } with
  | .ok _ w => { world := w.world, spawned := w.spawned, result := .ok () }
  | .error abort w =>
    { world := w.world, spawned := w.spawned,
      result := .error (abort.within (.inRule task.clause.text)) }

end Datalog
