import Datalog.Agenda.Basic
import Datalog.Bindings
import Datalog.Evaluation.Batch
import Datalog.Evaluation.Summary
import Datalog.Clause.Perform
import Datalog.Settings.Basic
import Datalog.Store.Listing
import Datalog.Stratum.Basic

/-!
# Evaluation/Task — the unit of work, and what it works on

A **task** runs one clause.  It starts at the beginning of the body, or goes on from a lookup with
a batch of the tuples that were found there.  Its **seed** is what a goal over the newly derived
tuples reads; without one such a goal reads the whole relation.  Its **generation** counts the
tasks that were set off by new facts, one from the other, since the round began.
-/

namespace Datalog

/-- Where a task goes on: past a lookup, over some of the tuples found there. -/
structure Resumption where
  goal : Goal
  tuples : List Tuple
  rest : List Slot
  bindings : Bindings

/-- **A task**: a clause, what its goals over newly derived tuples read, and where it starts. -/
structure Task where
  clause : PlannedClause
  seed : Option (List Tuple)
  generation : Nat
  /-- Where to go on; `none` starts the body. -/
  resumption : Option Resumption := none

/-- **What tasks share and change.** -/
structure World where
  store : Store
  /-- New tuples that wait for the next round, under the relations whose tuples set off clauses. -/
  delta : Assoc Relation (List Tuple) := ∅
  counters : Summary := {}
  /-- The lines about tracked relations, latest first. -/
  echoed : List String := []
  /-- The clauses whose work was recorded. -/
  timed : List String := []
deriving Inhabited

/-- **What tasks read**: it stays the same during a stratum. -/
structure Context where
  functions : Functions
  settings : Settings
  stratum : Stratum
  /-- The relations whose new tuples are echoed. -/
  tracked : List Relation
  listing : Listing := .asTheyCome

/-- What a task holds while it runs. -/
structure Worker where
  world : World
  /-- Bindings are overwritten and never undone: a goal binds its variables anew for each tuple. -/
  bindings : Bindings
  /-- New tuples of the head's relation that have not set off tasks yet. -/
  batch : List Tuple := []
  /-- The tasks made so far, newest first. -/
  spawned : List Task := []

/-- A stretch of a task's work; whatever it did before it stopped early stays done. -/
abbrev Work := EStateM Abort Worker

namespace Work

/-- A result that needed no worker. -/
def ofExcept (result : Except Abort α) : Work α :=
  match result with
  | .ok a => return a
  | .error abort => throw abort

/-- **Puts context around the faults of `work`.** -/
def within (context : Fault → Fault) (work : Work α) : Work α := fun w =>
  match work w with
  | .ok a w => .ok a w
  | .error abort w => .error (abort.within context) w

/-- Changes the counters. -/
def count (f : Summary → Summary) : Work Unit :=
  modify fun w => { w with world.counters := f w.world.counters }

/-- **Puts a task on the agenda.** -/
def spawn (task : Task) : Work Unit := do
  modify fun w => { w with spawned := task :: w.spawned }
  count fun c => { c with tasks := c.tasks + 1 }

/-- Notes that a clause did some work, if that is asked for. -/
def record (cx : Context) (clause : PlannedClause) : Work Unit :=
  if cx.settings.recordWork then
    modify fun w => { w with world.timed := w.world.timed.insert clause.text }
  else return

end Work

end Datalog
