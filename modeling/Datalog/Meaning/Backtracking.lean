import Datalog.Meaning.Reports

/-!
# Meaning/Backtracking — the search as a loop

The search of a task can also be run as a **walk**, a loop over the positions of the body.  Going
forward it takes the step at its position; where a step gives up, or the head has been concluded, it
goes back, to a lookup that has found more tuples.  What is left of them is kept in **cursors**, one
for each position.  The walk starts on its way back, just past the lookup whose tuples it has been
given, and ends when it is back there.

A walk is given so many turns at most, and has no ending if they do not suffice.  What it reports
is listed on the way.
-/

namespace Datalog

namespace Work

/-- Which way a walk goes. -/
inductive Direction where
  | advancing
  | backtracking

/-- **Where a walk is**, and what is left at each position of the tuples found there. -/
structure Place where
  position : Nat
  direction : Direction
  cursors : List (Option (List Tuple))

/-- How some work ended, and what it had reported by then. -/
abbrev Ending := EStateM.Result Abort Worker Unit × List Report

variable (cx : Context) (task : Task) (failed : Bool)

/-- **Hands on all batches but the first**, which becomes a cursor; there is none if nothing was
found. -/
def fork (slot : Slot) (goal : Goal) (rest : List Slot) (tuples : List Tuple) :
    Work (Option (List Tuple)) := do
  let first ← shareOut cx task slot goal rest tuples
  return if first.isEmpty then none else some first

/-- **A lookup** becomes a cursor over the first batch of what it finds. -/
def lookUp (slot : Slot) (goal : Goal) (rest : List Slot) : Work (Option (List Tuple)) := do
  let tuples ← within slot.step.blame (matching cx task slot goal)
  fork cx task slot goal rest tuples

/-- **Binds the next tuple of the cursor** at a position, and goes forward from there; a cursor that
has run dry is cleared. -/
def pull (goal : Goal) (position : Nat) (cursors : List (Option (List Tuple))) : Work Place :=
  match cursors[position]?.join with
  | some (tuple :: left) => do
    take cx goal tuple
    return ⟨position + 1, .advancing, cursors.set position (some left)⟩
  | some [] | none => return ⟨position, .backtracking, cursors.set position none⟩

/-- **One turn**: the place that comes next, if the walk is not back at its start. -/
def turn (start : Nat) (place : Place) : Work (Option Place) :=
  match place.direction with
  | .advancing =>
    match task.clause.body[place.position]? with
    | none => do
      conclude cx task failed
      return some { place with direction := .backtracking }
    | some slot =>
      match slot.step.positiveGoal? with
      | some goal => do
        let cursor ← lookUp cx task slot goal (task.clause.body.drop (place.position + 1))
        some <$> pull cx goal place.position (place.cursors.set place.position cursor)
      | none => do
        if ← within slot.step.blame (perform cx slot) then
          return some { place with position := place.position + 1 }
        else return some { place with direction := .backtracking }
  | .backtracking =>
    if place.position = start then return none
    else
      match task.clause.body[place.position - 1]?.bind (·.step.positiveGoal?) with
      | some goal => some <$> pull cx goal (place.position - 1) place.cursors
      | none => return some { place with position := place.position - 1 }

/-- What a turn reports: the complete match, at the end of the body. -/
def turnReports (place : Place) : Log :=
  match place.direction, task.clause.body[place.position]? with
  | .advancing, none => concludeReports cx task
  | _, _ => fun _ => []

/-- **The walk** from a place, with so many turns at most. -/
def walk (start : Nat) : (turns : Nat) → Place → Worker → Option Ending
  | 0, _, _ => none
  | turns + 1, place, w =>
    let reported := turnReports cx task place w
    match turn cx task failed start place w with
    | .ok none w => some (.ok () w, reported)
    | .ok (some next) w =>
      (walk start turns next w).map fun ending => (ending.1, reported ++ ending.2)
    | .error e w => some (.error e w, reported)

/-- **Walks on** from the lookup at `start`, over a batch of the tuples found there. -/
def walkOn (turns start : Nat) (tuples : List Tuple) (w : Worker) : Option Ending :=
  let cursors := (List.replicate task.clause.body.length none).set start (some tuples)
  (walk cx task failed start turns ⟨start + 1, .backtracking, cursors⟩ w).map fun ending =>
    (settle cx task failed (fun _ => ending.1) w, ending.2)

/-- **Sets out** for the first positive lookup, and walks on from there if it finds something.  A
body without one holds for a single combination. -/
def setOut (turns : Nat) : (position : Nat) → List Slot → Worker → Option Ending
  | _, [], w => some (settle cx task failed (conclude cx task failed) w, concludeReports cx task w)
  | position, slot :: rest, w =>
    match slot.step.positiveGoal? with
    | some goal =>
      let lookUp : Work (Option (List Tuple)) := do
        let tuples ← within slot.step.blame (matching cx task slot goal)
        record cx task.clause
        fork cx task slot goal rest tuples
      match lookUp w with
      | .ok none w => some (.ok () w, [])
      | .ok (some first) w => walkOn cx task failed turns position first w
      | .error e w => some (.error e w, [])
    | none =>
      match within slot.step.blame (perform cx slot) w with
      | .ok true w => setOut turns (position + 1) rest w
      | .ok false w => some (record cx task.clause w, [])
      | .error e w => some (.error e w, [])

end Work

namespace Task

/-- What a task leaves behind when its work has ended. -/
def outcome (task : Task) : EStateM.Result Abort Worker Unit → Outcome Task World
  | .ok _ w => { world := w.world, spawned := w.spawned, result := .ok () }
  | .error abort w =>
    { world := w.world, spawned := w.spawned,
      result := .error (abort.within (.inRule task.clause.text)) }

/-- **Runs a task by walking**, with so many turns at most, and lists what it reports. -/
def walk (cx : Context) (turns : Nat) (failed : Bool) (task : Task) (world : World) :
    Option (Outcome Task World × List Report) :=
  let ending := match task.resumption with
    | none => Work.setOut cx task failed turns 0 task.clause.body { world, bindings := ∅ }
    | some r => Work.walkOn cx task failed turns (task.clause.body.length - (r.rest.length + 1))
        r.tuples { world, bindings := r.bindings }
  ending.map fun ending => (task.outcome ending.1, ending.2)

/-- **Runs a line by walking**, at most `budget` of its tasks with so many turns for each, and lists
what they report in the order in which they run. -/
def walkLine (cx : Context) (policy : Policy Task World) (turns : Nat) :
    Nat → Agenda Task World → Option (Agenda Task World × List Report)
  | budget, a =>
    if a.waiting.isEmpty then some (a, [])
    else match budget with
      | 0 => none
      | budget + 1 => do
        let task ← a.waiting[policy a % a.waiting.length]?
        let (outcome, reports) ← task.walk cx turns a.fault.isSome a.world
        let spawned := outcome.spawned.filter Task.resumes
        let (last, more) ←
          walkLine cx policy turns budget (a.step (fun _ _ _ => { outcome with spawned }) policy)
        return (last, reports ++ more)

end Task

end Datalog
