import Datalog.Clause.Compile

/-!
# Settings/Basic — how evaluation is tuned

Except for `unification`, which says how rules compile, no setting changes which facts an
evaluation that ends well leaves; they change how the work is cut into tasks, when the tasks are
made, and what is counted.
-/

namespace Datalog

/-- **The settings**, each with its default. -/
structure Settings where
  /-- Tuples per task at an ordinary lookup. -/
  taskSize : Nat := 128
  /-- Tuples per task at a lookup marked for small batches. -/
  splitTaskSize : Nat := 8
  /-- How many generations of tasks new facts may set off within a round. -/
  maxGeneration : Nat := 8
  /-- New facts a task collects before it sets off tasks for them. -/
  eagerBatchSize : Nat := 16
  unification : Unification := .assign
  /-- Workers; 0 leaves the number open. -/
  parallelism : Nat := 0
  /-- Also count duplicates and bound tuples, and note which rules ran. -/
  recordWork : Bool := false
deriving DecidableEq, Inhabited

namespace Settings

/-- The names under which the settings are configured. -/
def names : List String :=
  ["task_size", "smt_task_size", "eager_eval_max_gen", "eager_eval_batch_size", "unification",
    "parallelism", "record_work"]

/-- **The first size that must not be zero and is.** -/
def zeroSize? (s : Settings) : Option String :=
  ([("task_size", s.taskSize), ("smt_task_size", s.splitTaskSize),
    ("eager_eval_batch_size", s.eagerBatchSize)].find? (·.2 == 0)).map Prod.fst

end Settings

end Datalog
