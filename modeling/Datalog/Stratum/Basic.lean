import Datalog.Clause.Rejection
import Datalog.Store.Basic

/-!
# Stratum/Basic — clauses ready to run

A **slot** is a step with the index its lookup uses and a mark that asks for small batches.  A
stratum holds its clauses twice over: the **base** clauses, which read whole relations, and under
each relation the **recursive** clauses that its newly derived tuples set off.
-/

namespace Datalog

/-- **A step that is ready to run.**  The mark asks for small batches of what a lookup finds. -/
structure Slot where
  step : Step
  index : IndexNumber := none
  split : Bool := false
deriving DecidableEq, Inhabited

/-- A clause with a slot per step. -/
structure PlannedClause where
  head : Head
  body : List Slot
deriving DecidableEq, Inhabited

namespace PlannedClause

/-- The clause without indices and marks. -/
def clause (c : PlannedClause) : Clause := ⟨c.head, c.body.map Slot.step⟩

/-- The text of the clause. -/
def text (c : PlannedClause) : String := c.clause.text

/-- **Attaches indices and split marks chosen elsewhere**, one of each per step. -/
def ofParts (clause : Clause) (indices : List IndexNumber) (splits : List Bool) :
    Except Rejection PlannedClause :=
  if indices.length ≠ clause.body.length then .error (.indexShape clause indices.length)
  else if splits.length ≠ clause.body.length then .error (.indexShape clause splits.length)
  else .ok ⟨clause.head, (clause.body.zip (indices.zip splits)).map fun e => ⟨e.1, e.2.1, e.2.2⟩⟩

end PlannedClause

/-- **A stratum**: its base clauses, and the recursive ones by the relation that sets them off. -/
structure Stratum where
  base : List PlannedClause := []
  recursive : Assoc Relation (List PlannedClause) := ∅
deriving Inhabited

namespace Stratum

/-- The clauses that new tuples of the relation set off. -/
def firedBy (s : Stratum) (r : Relation) : List PlannedClause := (s.recursive.get? r).getD []

/-- Adds a clause to those that new tuples of the relation set off. -/
def addRecursive (s : Stratum) (r : Relation) (c : PlannedClause) : Stratum :=
  { s with recursive := s.recursive.alter r fun cs => cs.getD [] ++ [c] }

end Stratum

end Datalog
