import Mathlib.Algebra.Order.Group.Multiset
import Datalog.Proofs.Evaluation.Branches
import Datalog.Proofs.Evaluation.Reports
import Datalog.Proofs.Ways

/-!
# Proofs/Evaluation/Ledger — what a task is worth

A task searches one batch of what a lookup finds and hands the others on, so what it reports and
counts is only a part of what nested loops come to.  The rest is owed by the tasks that it has made:
each goes on where the task has left off, and is worth what the loops come to from there
(`Task.Worth`).  What is reported and counted and what is owed then come to what the loops come to
(`Work.Yields`).

A worker overwrites its bindings, so it may hold some that another branch has left over.  The loops
do not, and where they find a value, the worker finds the same (`Work.Branch`).
-/

namespace Datalog

/-! ## What a task reads -/

/-- **The task looks the relation up in the store.**  A goal over new tuples reads the seed, if the
task has one. -/
def Task.Reads (task : Task) (r : Relation) : Prop :=
  ∃ g, .lookup g ∈ task.clause.clause.body ∧ g.relation = r ∧
    (g.negated = true ∨ g.delta = false ∨ task.seed = none)

/-- **The fact leaves what the task reads as it is**: it is stored already, or its relation is one
that the task does not look up. -/
def Task.Spares (task : Task) (start : Store) (tuple : Tuple) : Prop :=
  start.Holds task.clause.head.relation tuple ∨
    (start.Shaped ∧ ¬task.Reads task.clause.head.relation)

/-- **The store serves the task as the one at the start does.** -/
structure Store.Serves (start : Store) (task : Task) (s : Store) : Prop where
  extents : ∀ r, task.Reads r → s.extent r = start.extent r
  above : start.Holds.Within s.Holds
  shaped : start.Shaped → s.Shaped

namespace Store.Serves

variable {start s : Store} {task : Task} {tuple : Tuple}

theorem refl : start.Serves task start := ⟨fun _ _ => rfl, .refl _, id⟩

theorem add (h : start.Serves task s) (spares : task.Spares start tuple) :
    start.Serves task (s.add task.clause.head.relation tuple).1 := by
  by_cases hmem : tuple ∈ (s.extent task.clause.head.relation).tuples
  · rw [add_of_mem hmem]
    exact h
  · obtain held | ⟨_, unread⟩ := spares
    · exact (hmem (h.above _ _ held)).elim
    · refine ⟨fun r hr => ?_, fun r t ht => holds_add_iff.2 (.inl (h.above r t ht)),
        fun shaped => (h.shaped shaped).add⟩
      have other : task.clause.head.relation ≠ r := fun e => unread (e ▸ hr)
      rw [add_of_notMem hmem, extent_put, if_neg other]
      exact h.extents r hr

/-- A fact of the right arity fits. -/
theorem fits (h : start.Serves task s) (spares : task.Spares start tuple)
    (arity : tuple.length = task.clause.head.relation.arity) (m : Misfit) :
    (s.add task.clause.head.relation tuple).2 ≠ .misfit m := by
  obtain held | ⟨shaped, _⟩ := spares
  · rw [add_of_mem (h.above _ _ held)]
    exact nofun
  · exact (h.shaped shaped).fits arity m

end Store.Serves

/-! ## What a task is worth -/

/-- **What is made of a search**: the complete matches, each with the values of the head, and how
often a tuple was counted. -/
abbrev Yield := Multiset (Bindings × Tuple) × Nat

/-- Matches, in whatever order, and nothing counted. -/
def Yield.matched (ms : List (Bindings × Tuple)) : Yield := (↑ms, 0)

theorem Yield.matched_append {ms ms' : List (Bindings × Tuple)} :
    matched (ms ++ ms') = matched ms + matched ms' := by
  simp [matched]

/-- What a tuple that is taken adds to the counters. -/
def Context.taken (cx : Context) : Yield := (0, if cx.settings.recordWork then 1 else 0)

/-- **The report is of the match**: it has whatever the match has bound, and the same values of the
head. -/
structure Report.Shows (report : Report) (m : Bindings × Tuple) : Prop where
  bindings : m.1.Within report.bindings
  tuple : report.tuple = m.2

/-- **What a branch has bound** on its way to a position; whatever else a worker holds there has
been left over. -/
structure Work.Branch (pre : List Slot) (b held : Bindings) : Prop where
  bounded : ∀ v x, b.get? v = some x → v ∈ before pre
  within : b.Within held

namespace Task

variable (cx : Context) (start : Store) (task : Task)

/-- The nested loops that a task's search is held against. -/
def loops : Loops := { functions := cx.functions, store := start, seed := task.seed }

/-- What a complete match adds. -/
def found (b : Bindings) : Yield :=
  match Tuple.evaluate b cx.functions task.clause.head.args with
  | .ok tuple => .matched [(b, tuple)]
  | .error _ => 0

/-- A complete match whose head has values, and a fact that spares what the task reads. -/
def Good (b : Bindings) : Prop :=
  ∃ tuple, Tuple.evaluate b cx.functions task.clause.head.args = .ok tuple ∧
    task.Spares start tuple

/-- What the loops come to from these slots on. -/
def yield (slots : List Slot) (b : Bindings) : Yield :=
  (task.loops cx start).weigh (task.found cx) cx.taken (slots.map Slot.step) b

/-- No loop fails from these slots on. -/
def Fine (slots : List Slot) (b : Bindings) : Prop :=
  (task.loops cx start).Fine (task.Good cx start) (slots.map Slot.step) b

/-- **The tasks of a line, and what is owed by them**: the first one, and those that go on where one
of the line has left off.  They are worth what the loops come to with the bindings that the branch
has made. -/
inductive Worth : Task → Yield → Prop
  | start (first : task.resumption = none) (fine : task.Fine cx start task.clause.body ∅) :
      Worth task (task.yield cx start task.clause.body ∅)
  | goOn {pre rest : List Slot} {slot : Slot} {goal : Goal} {b held : Bindings}
      {tuples : List Tuple} (body : task.clause.body = pre ++ slot :: rest)
      (positive : slot.step.positiveGoal? = some goal) (branch : Work.Branch pre b held)
      (fine : ∀ t ∈ tuples, task.Fine cx start rest (goal.bind t b)) :
      Worth (Work.suffix task goal rest held tuples)
        (tuples.map fun t => cx.taken + task.yield cx start rest (goal.bind t b)).sum

/-- **What is asked of clause and store**: where a goal asks for the absence of tuples, these are as
long as the goal. -/
structure Suits : Prop where
  orderly : task.clause.clause.Orderly
  built : start.Built
  exact : ∀ g, .lookup g ∈ task.clause.clause.body → g.negated = true →
    ∀ t, start.Holds g.relation t → t.length = g.args.length

variable {cx start task}

theorem not_resumes_of_fired {t : Task} {batch : List Tuple} (h : t ∈ task.fired cx batch) :
    ¬t.resumes = true := by
  obtain ⟨c, _, rfl⟩ := List.mem_map.1 h
  exact Bool.false_ne_true

end Task

/-! ## The ledger -/

namespace Work

variable {α β : Type} {cx : Context} {start : Store} {task : Task} {failed : Bool}
  {w w' w'' : Worker}

/-- **What tasks of a line owe**, and what has been counted. -/
def Owes (cx : Context) (start : Store) (task : Task) (tasks : List Task) (world : World)
    (owed : Yield) : Prop :=
  ∃ ys, List.Forall₂ (task.Worth cx start) tasks ys ∧ owed = ys.sum + (0, world.counters.work)

namespace Owes

variable {tasks tasks' more : List Task} {ys : List Yield} {world : World} {owed : Yield}

/-- More tasks owe more. -/
theorem append (worth : List.Forall₂ (task.Worth cx start) more ys)
    (h : Owes cx start task tasks world owed) :
    Owes cx start task (more ++ tasks) world (ys.sum + owed) := by
  obtain ⟨zs, worth', rfl⟩ := h
  refine ⟨ys ++ zs, List.rel_append worth worth', ?_⟩
  rw [List.sum_append, add_assoc]

theorem perm (h : Owes cx start task tasks world owed) (perm : tasks'.Perm tasks) :
    Owes cx start task tasks' world owed := by
  obtain ⟨ys, worth, rfl⟩ := h
  obtain ⟨zs, worth', perm'⟩ := List.perm_comp_forall₂ perm worth
  exact ⟨zs, worth', by rw [perm'.sum_eq]⟩

end Owes

/-- **The reports are worth `y`**: with what is still owed by tasks that go on, they show matches
that come to as much more than what was owed before. -/
def Pays (cx : Context) (start : Store) (task : Task) (reports : List Report) (y : Yield)
    (w w' : Worker) : Prop :=
  ∀ owed, Owes cx start task (w.spawned.filter Task.resumes) w.world owed → ∃ ms owed',
    List.Forall₂ Report.Shows reports ms ∧
      Owes cx start task (w'.spawned.filter Task.resumes) w'.world owed' ∧
      .matched ms + owed' = y + owed

namespace Pays

theorem refl : Pays cx start task [] 0 w w :=
  fun owed h => ⟨[], owed, .nil, h, rfl⟩

theorem trans {reports reports' : List Report} {y y' : Yield}
    (h : Pays cx start task reports y w w') (h' : Pays cx start task reports' y' w' w'') :
    Pays cx start task (reports ++ reports') (y + y') w w'' := by
  intro owed hw
  obtain ⟨ms, owed', shows₁, hw', balance⟩ := h owed hw
  obtain ⟨ms', owed'', shows₂, hw'', balance'⟩ := h' owed' hw'
  refine ⟨ms ++ ms', owed'', List.rel_append shows₁ shows₂, hw'', ?_⟩
  rw [Yield.matched_append, add_assoc, balance', add_left_comm, balance]
  abel

/-- Nothing has changed that is owed or counted. -/
theorem of_eq (spawned : w'.spawned.filter Task.resumes = w.spawned.filter Task.resumes)
    (work : w'.world.counters.work = w.world.counters.work) : Pays cx start task [] 0 w w' := by
  rintro owed ⟨ys, worth, rfl⟩
  exact ⟨[], _, .nil, ⟨ys, spawned ▸ worth, rfl⟩, by rw [work]; rfl⟩

end Pays

/-- **Nothing has happened that concerns the line.** -/
structure Passes (cx : Context) (start : Store) (task : Task) (w w' : Worker) : Prop where
  serves : start.Serves task w.world.store → start.Serves task w'.world.store
  bindings : w'.bindings = w.bindings
  pays : Pays cx start task [] 0 w w'

/-- **The work yields `y`**: it ends well, leaves what is known bound as it was, and what it
reports, counts and leaves owed comes to that much more. -/
structure Yields (cx : Context) (start : Store) (task : Task) (known : List Var) (x : Work Unit)
    (log : Log) (y : Yield) (w w' : Worker) : Prop where
  ends : x w = .ok () w'
  serves : start.Serves task w'.world.store
  agree : Bindings.Agree known w'.bindings w.bindings
  pays : Pays cx start task (log w) y w w'

namespace Passes

theorem refl : Passes cx start task w w := ⟨id, rfl, .refl⟩

theorem trans (h : Passes cx start task w w') (h' : Passes cx start task w' w'') :
    Passes cx start task w w'' :=
  ⟨h'.serves ∘ h.serves, h'.bindings.trans h.bindings, h.pays.trans h'.pays⟩

theorem of_idles (idles : w.Idles w') (work : w'.world.counters.work = w.world.counters.work) :
    Passes cx start task w w' := by
  refine ⟨fun serves => ?_, idles.bindings, .of_eq ?_ work⟩
  · rw [idles.store]
    exact serves
  · rw [idles.spawned]

/-- Tasks that are set off are not of the line. -/
theorem fired {batch seed : List Tuple} : Passes cx start task w
    { w with batch, spawned := (task.fired cx seed).reverse ++ w.spawned } := by
  refine ⟨id, rfl, .of_eq ?_ rfl⟩
  rw [List.filter_append, List.filter_eq_nil_iff.2, List.nil_append]
  exact fun t ht => Task.not_resumes_of_fired (List.mem_reverse.1 ht)

/-- What becomes of a new tuple does not concern the line. -/
theorem kept {tuple : Tuple} (h : Kept cx task tuple w w') : Passes cx start task w w' := by
  cases h with
  | idle => exact refl
  | batched | delayed => exact ⟨id, rfl, .of_eq rfl rfl⟩
  | fired => exact fired

end Passes

/-! ## What is counted -/

namespace Keeps

variable {I : Worker → Prop}

theorem got : Keeps I (get : Work Worker) := by
  intro w a w' hw ok
  obtain ⟨_, rfl⟩ := Outcome.get_ok_iff.1 ok
  exact hw

theorem changed {f : Worker → Worker} (h : ∀ w, I w → I (f w)) :
    Keeps I (modify f : Work PUnit) := by
  intro w a w' hw ok
  obtain rfl := Outcome.modify_ok_iff.1 ok
  exact h w hw

end Keeps

/-- As many tuples are counted as before. -/
abbrev Counted (n : Nat) (w : Worker) : Prop := w.world.counters.work = n

namespace Counted

variable {n : Nat}

theorem spawn {t : Task} : Keeps (Counted n) (spawn t) :=
  .bind (.changed fun _ h => h) fun _ => .changed fun _ h => h

theorem record {clause : PlannedClause} : Keeps (Counted n) (record cx clause) :=
  .ite (.changed fun _ h => h) .pure

theorem shareOut {slot : Slot} {goal : Goal} {rest : List Slot} {tuples : List Tuple} :
    Keeps (Counted n) (shareOut cx task slot goal rest tuples) := by
  rw [Work.shareOut]
  split
  · exact .pure
  · exact .bind .got fun _ => .bind (.forM fun _ => spawn) fun _ => .pure

theorem setOff : Keeps (Counted n) (setOff cx task failed) := by
  refine .bind .got fun w => .ite .pure (.bind (.changed fun _ h => h) fun _ => ?_)
  exact .forM fun _ => spawn

theorem keep {tuple : Tuple} : Keeps (Counted n) (keep cx task failed tuple) := by
  refine .ite (.ite (.bind (.changed fun _ h => h) fun _ => ?_) ?_) .pure
  · exact .bind .got fun _ => .ite setOff .pure
  · exact .changed fun _ h => h

theorem enter {tuple : Tuple} : Keeps (Counted n) (enter cx task failed tuple) := by
  have echoes : Keeps (Counted n) (echo cx task tuple) := .ite (.changed fun _ h => h) .pure
  refine .bind (fun w new w' hw ok => ?_) fun new => .ite ?_ ?_
  · obtain ⟨rfl, _⟩ := store_ok ok
    exact hw
  · exact .bind (.changed fun _ h => h) fun _ => .bind echoes fun _ => keep
  · exact .ite (.changed fun _ h => h) .pure

end Counted

/-- The worker with a tuple that a goal has found, counted and bound. -/
def taking (cx : Context) (goal : Goal) (tuple : Tuple) (w : Worker) : Worker := { w with
  world.counters.work := w.world.counters.work + if cx.settings.recordWork then 1 else 0
  bindings := goal.bind tuple w.bindings }

theorem take_eq {goal : Goal} {tuple : Tuple} :
    take cx goal tuple w = .ok () (taking cx goal tuple w) := by
  rw [take, taking]
  split <;> rfl

/-- **Taking a tuple** counts it. -/
theorem pays_taking {goal : Goal} {tuple : Tuple} :
    Pays cx start task [] cx.taken w (taking cx goal tuple w) := by
  rintro owed ⟨ys, worth, rfl⟩
  have counted : ((0, (taking cx goal tuple w).world.counters.work) : Yield) =
      (0, w.world.counters.work) + cx.taken := rfl
  refine ⟨[], _, .nil, ⟨ys, worth, rfl⟩, ?_⟩
  rw [counted, ← add_assoc ys.sum, add_comm cx.taken]
  exact zero_add _

/-! ## Branches -/

variable {pre rest slots : List Slot} {slot : Slot} {goal : Goal} {tuples : List Tuple}
  {b held : Bindings}

namespace Branch

/-- At the start of a body nothing has been bound. -/
theorem nil : Branch [] ∅ held where
  bounded _ _ h := nomatch h
  within _ _ h := nomatch h

/-- What is known where the branch stands is not touched. -/
theorem of_agree {held' : Bindings} (h : Branch pre b held)
    (agree : Bindings.Agree (before pre) held' held) : Branch pre b held' :=
  ⟨h.bounded, fun v x hx => (agree v (h.bounded v x hx)).trans (h.within v x hx)⟩

/-- **A step takes the branch on**, if it writes no more than it says. -/
theorem next {c held' : Bindings} (h : Branch pre b held)
    (writes : ∀ v, v ∉ slot.step.writes → c.get? v = b.get? v) (within : c.Within held') :
    Branch (pre ++ [slot]) c held' := by
  refine ⟨fun v x hx => ?_, within⟩
  rw [before_snoc, List.mem_append]
  by_cases hv : v ∈ slot.step.writes
  · exact .inr hv
  · exact .inl (h.bounded v x (writes v hv ▸ hx))

end Branch

/-- A tuple binds nothing but what its goal writes. -/
theorem get?_bind (positive : slot.step.positiveGoal? = some goal) {tuple : Tuple} {v : Var}
    (hv : v ∉ slot.step.writes) : (goal.bind tuple b).get? v = b.get? v := by
  obtain ⟨hstep, hn⟩ := step_of_positive positive
  rw [hstep, Step.writes, hn, if_neg Bool.false_ne_true] at hv
  rw [Goal.bind_eq_putAll]
  exact Assoc.get?_putAll_of_notMem fun hm => hv (Goal.map_fst_bindingsOf_subset _ _ hm)

/-- **A tuple taken** on a branch. -/
theorem Branch.bind (h : Branch pre b held) (positive : slot.step.positiveGoal? = some goal)
    (tuple : Tuple) : Branch (pre ++ [slot]) (goal.bind tuple b) (goal.bind tuple held) := by
  refine h.next (fun v hv => get?_bind positive hv) ?_
  rw [Goal.bind_eq_putAll, Goal.bind_eq_putAll]
  exact h.within.putAll _

end Work

end Datalog
