/-!
# Evaluation/Summary — what evaluation counts
-/

namespace Datalog

/-- **What an evaluation counts.** -/
structure Summary where
  /-- Tasks put on the agenda. -/
  tasks : Nat := 0
  /-- Rounds run, the base round of each stratum included. -/
  rounds : Nat := 0
  /-- Facts that were new to the store. -/
  newFacts : Nat := 0
  /-- Derivations of facts that were there already; counted on request. -/
  duplicates : Nat := 0
  /-- Tuples bound by lookups; counted on request. -/
  work : Nat := 0
deriving DecidableEq, Inhabited

namespace Summary

/-- What was counted after `before`. -/
def since (now before : Summary) : Summary where
  tasks := now.tasks - before.tasks
  rounds := now.rounds - before.rounds
  newFacts := now.newFacts - before.newFacts
  duplicates := now.duplicates - before.duplicates
  work := now.work - before.work

/-- The counts on one line. -/
def text (s : Summary) : String :=
  toString s.rounds ++ " rounds, " ++ toString s.tasks ++ " tasks, " ++ toString s.newFacts ++
    " new facts, " ++ toString s.duplicates ++ " duplicates, " ++ toString s.work ++ " tuples bound"

end Summary

end Datalog
