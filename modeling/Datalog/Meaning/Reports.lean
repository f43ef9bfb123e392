import Datalog.Evaluation.Fixpoint

/-!
# Meaning/Reports — the complete matches that a task reports

A **report** is a complete match whose head has a value.  The reports of a task are listed by
following its work: the same steps are taken from the same states, and wherever the work concludes
its head a report is noted.  The work itself keeps no such list, so what it counts and stores can be
held against it.
-/

namespace Datalog

/-- A complete match of a clause, the fact that its head becomes, and what adding that fact does to
the store. -/
structure Report where
  relation : Relation
  tuple : Tuple
  bindings : Bindings
  insertion : Insertion

namespace Report

/-- The fact that is reported. -/
def fact (report : Report) : Relation × Tuple := (report.relation, report.tuple)

/-- The facts that were not there yet when they were reported. -/
def stored (reports : List Report) : List (Relation × Tuple) :=
  (reports.filter (·.insertion ≠ .present)).map fact

/-- The facts that were new and went into every index of their relation. -/
def added (reports : List Report) : List (Relation × Tuple) :=
  (reports.filter (·.insertion = .added)).map fact

/-- The facts that were new, but that an index could not take. -/
def crashed (reports : List Report) : List (Relation × Tuple) :=
  (reports.filter fun report => report.insertion ≠ .present ∧ report.insertion ≠ .added).map fact

/-- The facts that were there already. -/
def repeated (reports : List Report) : List (Relation × Tuple) :=
  (reports.filter (·.insertion = .present)).map fact

/-- The line about a fact of a tracked relation. -/
def line (f : Relation × Tuple) : String := "[TRACKED] " ++ Tuple.text f.1.name f.2

end Report

namespace Work

/-- The reports of a stretch of work, from the worker that it starts with. -/
abbrev Log := Worker → List Report

/-- The reports of what comes after some work, if that ends well. -/
def reportsAfter (work : Work α) (log : α → Log) : Log := fun w =>
  match work w with
  | .ok a w => log a w
  | .error _ _ => []

/-- The reports of work that is done for one thing after the other, up to the first failure. -/
def reportsEach (work : α → Work Unit) (log : α → Log) : List α → Log
  | [] => fun _ => []
  | a :: as => fun w => log a w ++ reportsAfter (work a) (fun _ => reportsEach work log as) w

variable (cx : Context) (task : Task) (failed : Bool)

/-- **Concluding the head** is one report, if the head has a value. -/
def concludeReports : Log := fun w =>
  let head := task.clause.head
  match Tuple.evaluate w.bindings cx.functions head.args with
  | .ok tuple =>
    [{ relation := head.relation, tuple, bindings := w.bindings
       insertion := (w.world.store.add head.relation tuple).2 }]
  | .error _ => []

/-- What `search` reports. -/
def searchReports : List Slot → Log
  | [] => concludeReports cx task
  | slot :: rest =>
    match slot.step.positiveGoal? with
    | some goal =>
      reportsAfter
        (do
          let tuples ← within slot.step.blame (matching cx task slot goal)
          shareOut cx task slot goal rest tuples)
        (reportsEach
          (fun tuple => do
            take cx goal tuple
            search cx task (conclude cx task failed) rest)
          fun tuple => reportsAfter (take cx goal tuple) fun _ => searchReports rest)
    | none =>
      reportsAfter (within slot.step.blame (perform cx slot)) fun goesOn =>
        if goesOn then searchReports rest else fun _ => []

/-- What `resume` reports. -/
def resumeReports (goal : Goal) (rest : List Slot) (tuples : List Tuple) : Log :=
  reportsEach
    (fun tuple => do
      take cx goal tuple
      search cx task (conclude cx task failed) rest)
    (fun tuple => reportsAfter (take cx goal tuple) fun _ => searchReports cx task failed rest)
    tuples

/-- What `approach` reports. -/
def approachReports : List Slot → Log
  | [] => concludeReports cx task
  | slot :: rest =>
    match slot.step.positiveGoal? with
    | some goal =>
      reportsAfter
        (do
          let tuples ← within slot.step.blame (matching cx task slot goal)
          record cx task.clause
          shareOut cx task slot goal rest tuples)
        (resumeReports cx task failed goal rest)
    | none =>
      reportsAfter (within slot.step.blame (perform cx slot)) fun goesOn =>
        if goesOn then approachReports rest else fun _ => []

end Work

/-- **The reports of a task** that runs in a world. -/
def Task.reports (cx : Context) (failed : Bool) (task : Task) (world : World) : List Report :=
  let bindings := (task.resumption.map (·.bindings)).getD ∅
  match task.resumption with
  | none => Work.approachReports cx task failed task.clause.body { world, bindings }
  | some r => Work.resumeReports cx task failed r.goal r.rest r.tuples { world, bindings }

/-- The task goes on where another has left off. -/
def Task.resumes (task : Task) : Bool := task.resumption.isSome

/-- **Runs a task for its line**: of the tasks that it makes those are kept that go on from it, and
not those that its new facts set off. -/
def Task.runLine (cx : Context) : Behaviour Task World := fun failed task world =>
  let outcome := task.run cx failed world
  { outcome with spawned := outcome.spawned.filter Task.resumes }

/-- What the tasks of an agenda leave in a log while it runs, in the order in which they run. -/
def Agenda.logged (log : Bool → τ → σ → List γ) (run : Behaviour τ σ) (policy : Policy τ σ) :
    Nat → Agenda τ σ → List γ
  | 0, _ => []
  | budget + 1, a =>
    match a.waiting[policy a % a.waiting.length]? with
    | none => []
    | some task =>
      log a.fault.isSome task a.world ++ logged log run policy budget (a.step run policy)

end Datalog
