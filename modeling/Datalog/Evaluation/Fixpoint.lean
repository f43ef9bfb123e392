import Datalog.Evaluation.Join

/-!
# Evaluation/Fixpoint — evaluating a stratum

The **base round** runs every base clause once.  Then the tuples that are new since the round
before seed the clauses they set off, round after round, until a round leaves nothing new behind.
A round is an agenda that runs until nothing waits; a fault in it ends the evaluation, and what
was derived up to then stays in the store.
-/

namespace Datalog

/-- How far the evaluation of a stratum has come. -/
inductive Phase where
  | initializing
  | baseRound
  /-- The rounds after the base round count from 1. -/
  | recursiveRound (round : Nat)
  | done
  | failed
deriving DecidableEq, Inhabited

/-- Which of the waiting tasks runs next. -/
abbrev Schedule := Policy Task World

/-- An evaluation of a stratum. -/
structure Evaluation where
  context : Context
  world : World
  phase : Phase := .initializing
  /-- The tasks that have run, round by round, the latest first. -/
  history : List (List Task) := []

namespace Evaluation

/-- The tasks of the base round. -/
def baseTasks (cx : Context) : List Task :=
  cx.stratum.base.map fun clause => { clause, seed := none, generation := 0 }

/-- **The tasks of the next round**: the new tuples of each relation seed the clauses they set
off, in the order in which the stratum lists the relations. -/
def seededTasks (cx : Context) (delta : Assoc Relation (List Tuple)) : List Task :=
  cx.stratum.recursive.entries.flatMap fun (r, clauses) =>
    match cx.listing.waited r ((delta.get? r).getD []) with
    | [] => []
    | tuples => clauses.map fun clause => { clause, seed := some tuples, generation := 0 }

/-- **One round**, with nothing in the delta at its start; `none` if the budget was not enough. -/
def round (schedule : Schedule) (budget : Nat) (tasks : List Task) (e : Evaluation) :
    Option (Evaluation × Except Fault Unit) := do
  let counters := e.world.counters
  let world := { e.world with
    delta := ∅
    counters := { counters with
      rounds := counters.rounds + 1
      tasks := counters.tasks + tasks.length } }
  let agenda ← Agenda.drain (Task.run e.context) schedule budget { world, waiting := tasks.reverse }
  return ({ e with world := agenda.world, history := agenda.finished :: e.history }, agenda.result)

/-- The rounds after the base round; `number` is that of the next one. -/
def rounds (schedule : Schedule) (budget : Nat) :
    (limit number : Nat) → Evaluation → Option (Evaluation × Except Fault Unit)
  | limit, number, e =>
    match seededTasks e.context e.world.delta with
    | [] => some ({ e with phase := .done }, .ok ())
    | tasks =>
      match limit with
      | 0 => none
      | limit + 1 => do
        match ← round schedule budget tasks { e with phase := .recursiveRound number } with
        | (e, .ok _) => rounds schedule budget limit (number + 1) e
        | (e, .error fault) => return ({ e with phase := .failed }, .error fault)

/-- **Evaluates the stratum to its fixpoint.**  No more than `budget` tasks a round and `budget`
rounds are run; `none` says that this was not enough. -/
def run (schedule : Schedule) (budget : Nat) (e : Evaluation) :
    Option (Evaluation × Except Fault Summary) := do
  let before := e.world.counters
  match ← round schedule budget (baseTasks e.context) { e with phase := .baseRound } with
  | (e, .error fault) => return ({ e with phase := .failed }, .error fault)
  | (e, .ok _) =>
    match ← rounds schedule budget budget 1 e with
    | (e, .error fault) => return (e, .error fault)
    | (e, .ok _) => return (e, .ok (e.world.counters.since before))

end Evaluation

end Datalog
