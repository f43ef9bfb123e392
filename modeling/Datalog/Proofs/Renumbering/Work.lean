import Datalog.Evaluation.Join
import Datalog.Proofs.Evaluation.Position
import Datalog.Proofs.Renumbering.Clause

/-!
# Proofs/Renumbering/Work — the same work with other variables

Two tasks that run clauses which correspond, over worlds that correspond, do the same work: they
find the same tuples, make the same facts and put tasks that correspond on the agenda.  Whatever
stops one of them stops the other, with the same fault up to the renaming.  This holds of each
stretch of work, and `Task.run_like` puts the stretches together.
-/

namespace Datalog

open Outcome (InStep Pair)

variable {k : Relation → Nat} {n : Nat} {ρ : Var → Var}

/-! ## Tasks and what they share -/

/-- **Contexts that correspond.** -/
structure Context.Like (k : Relation → Nat) (n : Nat) (cx cx' : Context) : Prop where
  functions : cx'.functions = cx.functions
  settings : cx'.settings = cx.settings
  stratum : cx.stratum.Like k n cx'.stratum
  tracked : cx'.tracked = cx.tracked
  listing : cx'.listing = cx.listing

/-- Places to go on that correspond. -/
structure Resumption.Like (k : Relation → Nat) (ρ : Var → Var) (r r' : Resumption) : Prop where
  goal : r'.goal = r.goal.rename ρ
  tuples : r'.tuples = r.tuples
  rest : List.Forall₂ (Slot.Like k ρ) r.rest r'.rest
  bindings : r.bindings.Like ρ r'.bindings

/-- The tasks correspond under the renaming. -/
structure Task.LikeBy (k : Relation → Nat) (ρ : Var → Var) (t t' : Task) : Prop where
  clause : t.clause.LikeBy k ρ t'.clause
  seed : t'.seed = t.seed
  generation : t'.generation = t.generation
  resumption : Option.Rel (Resumption.Like k ρ) t.resumption t'.resumption

/-- **Tasks that correspond.** -/
def Task.Like (k : Relation → Nat) (n : Nat) (t t' : Task) : Prop :=
  ∃ ρ, Var.Renumbers n ρ ∧ t.LikeBy k ρ t'

/-- **Worlds that correspond.**  Which clauses were timed is left out: it is told by their texts. -/
structure World.Like (k : Relation → Nat) (w w' : World) : Prop where
  store : w.store.Abreast k w'.store
  delta : w'.delta = w.delta
  counters : w'.counters = w.counters
  echoed : w'.echoed = w.echoed

/-- **Workers that correspond**: the bindings do under the renaming of their clause, and the tasks
they have made each under its own. -/
structure Worker.Like (k : Relation → Nat) (n : Nat) (ρ : Var → Var) (w w' : Worker) : Prop where
  world : w.world.Like k w'.world
  bindings : w.bindings.Like ρ w'.bindings
  batch : w'.batch = w.batch
  spawned : List.Forall₂ (Task.Like k n) w.spawned w'.spawned

namespace Worker.Like

variable {w w' : Worker}

theorem withWorld {v v' : World} (h : w.Like k n ρ w') (hv : v.Like k v') :
    Worker.Like k n ρ { w with world := v } { w' with world := v' } :=
  ⟨hv, h.bindings, h.batch, h.spawned⟩

theorem withBindings {b b' : Bindings} (h : w.Like k n ρ w') (hb : b.Like ρ b') :
    Worker.Like k n ρ { w with bindings := b } { w' with bindings := b' } :=
  ⟨h.world, hb, h.batch, h.spawned⟩

end Worker.Like

/-! ## Work in step -/

namespace Outcome.InStep

variable {α β : Type} {R : α → β → Prop}

theorem ofExcept {x : Except Abort α} {y : Except Abort β} (h : Pair (Abort.Like ρ) R x y) :
    InStep (Worker.Like k n ρ) (Abort.Like ρ) R (Work.ofExcept x) (Work.ofExcept y) := by
  cases h with
  | ok h => exact .pure h
  | error h => exact .throw h

theorem within {x : Work α} {y : Work β} {context context' : Fault → Fault}
    (h : InStep (Worker.Like k n ρ) (Abort.Like ρ) R x y)
    (both : ∀ f f', f.RenamedBy ρ f' → (context f).RenamedBy ρ (context' f')) :
    InStep (Worker.Like k n ρ) (Abort.Like ρ) R (Work.within context x)
      (Work.within context' y) := by
  intro w w' hw
  have first := h w w' hw
  rw [Work.within, Work.within]
  generalize x w = result, y w' = result' at first
  cases first with
  | ok hw h => exact .ok hw h
  | error hw h => exact .error hw (h.within both)

end Outcome.InStep

namespace Work

variable {α β : Type}

/-- **The same work**, up to the renaming. -/
abbrev Like (k : Relation → Nat) (n : Nat) (ρ : Var → Var) (R : α → β → Prop) (x : Work α)
    (y : Work β) : Prop :=
  InStep (Worker.Like k n ρ) (Abort.Like ρ) R x y

/-- The same work without a result. -/
abbrev Done (_ _ : Unit) : Prop := True

variable {cx cx' : Context} {task task' : Task} {failed : Bool}

/-! ## Work that does not look at the bindings -/

theorem count_like (f : Summary → Summary) : Like k n ρ Done (count f) (count f) :=
  .modify fun _ _ h => h.withWorld ⟨h.world.store, h.world.delta, congrArg f h.world.counters,
    h.world.echoed⟩

theorem spawn_like {t t' : Task} (ht : t.Like k n t') : Like k n ρ Done (spawn t) (spawn t') :=
  .bind (.modify fun _ _ h => ⟨h.world, h.bindings, h.batch, .cons ht h.spawned⟩)
    fun _ _ _ => count_like _

section

variable (hcx : cx.Like k n cx')
include hcx

theorem record_like (c c' : PlannedClause) : Like k n ρ Done (record cx c) (record cx' c') := by
  rw [record, record, hcx.settings]
  exact .ite Iff.rfl (.modify fun _ _ h => h.withWorld ⟨h.world.store, h.world.delta,
    h.world.counters, h.world.echoed⟩) (.pure trivial)

variable (htask : task.LikeBy k ρ task')
include htask

/-- **Setting off** starts the same clauses for the same batch. -/
theorem setOff_like : Like k n ρ Done (setOff cx task failed) (setOff cx' task' failed) := by
  rw [setOff, setOff, htask.clause.relation, htask.generation]
  refine .bind .get fun w w' hw => ?_
  dsimp only
  rw [hw.batch]
  refine .ite Iff.rfl (.pure trivial) (.bind (.modify fun _ _ h => ⟨h.world, h.bindings, rfl,
    h.spawned⟩) fun _ _ _ => .forM (hcx.stratum.firedBy _) fun c c' hc => spawn_like ?_)
  exact hc.imp fun _ h => ⟨h.1, h.2, rfl, rfl, .none⟩

omit hcx in
/-- **Storing** a tuple of the right arity. -/
theorem store_like {tuple : Tuple} (hlen : tuple.length = task.clause.head.relation.arity) :
    Like k n ρ Eq (store task tuple) (store task' tuple) := by
  rw [store, store, htask.clause.relation]
  refine .bind .get fun w w' hw => ?_
  obtain ⟨stores, same⟩ := hw.world.store.add hlen
  generalize w.world.store.add task.clause.head.relation tuple = added,
    w'.world.store.add task.clause.head.relation tuple = added' at stores same
  obtain ⟨stored, insertion⟩ := added
  obtain ⟨stored', insertion'⟩ := added'
  cases same
  refine .bind (.set (hw.withWorld ⟨stores, hw.world.delta, hw.world.counters,
    hw.world.echoed⟩)) fun _ _ _ => ?_
  cases insertion with
  | added | present => exact .pure rfl
  | misfit m => exact .throw (.refl _)

theorem echo_like (tuple : Tuple) : Like k n ρ Done (echo cx task tuple) (echo cx' task' tuple) := by
  rw [echo, echo, htask.clause.relation, hcx.tracked]
  exact .ite Iff.rfl (.modify fun _ _ h => h.withWorld ⟨h.world.store, h.world.delta,
    h.world.counters, congrArg (List.cons _) h.world.echoed⟩) (.pure trivial)

theorem keep_like (tuple : Tuple) :
    Like k n ρ Done (keep cx task failed tuple) (keep cx' task' failed tuple) := by
  rw [keep, keep, htask.clause.relation, hcx.stratum.recursive.contains, htask.generation,
    hcx.settings]
  refine .ite Iff.rfl (.ite Iff.rfl (.bind (.modify fun _ _ h => ⟨h.world, h.bindings,
    congrArg (· ++ [tuple]) h.batch, h.spawned⟩) fun _ _ _ => .bind .get fun w w' hw => ?_)
    (.modify fun _ _ h => h.withWorld ⟨h.world.store, congrArg (Assoc.alter ·
      task.clause.head.relation fun tuples => tuple :: tuples.getD []) h.world.delta,
      h.world.counters, h.world.echoed⟩)) (.pure trivial)
  rw [hw.batch]
  exact .ite Iff.rfl (setOff_like hcx htask) (.pure trivial)

/-- **Concluding**: the head has the same values. -/
theorem conclude_like :
    Like k n ρ Done (conclude cx task failed) (conclude cx' task' failed) := by
  rw [conclude, conclude, hcx.functions, hcx.settings, htask.clause.head]
  refine .bind .get fun w w' hw => ?_
  refine .bind (.within (.ofExcept (Tuple.evaluate_rename hw.bindings task.clause.head.args).known)
    fun f f' hf => .head _ hf) ?_
  rintro tuple _ ⟨rfl, ok, -⟩
  have hlen : tuple.length = task.clause.head.relation.arity :=
    (Tuple.length_of_evaluate ok).trans htask.clause.arity
  refine .bind (store_like htask hlen) ?_
  rintro new _ rfl
  refine .ite Iff.rfl (.bind (count_like _) fun _ _ _ => .bind (echo_like hcx htask tuple)
    fun _ _ _ => keep_like hcx htask tuple) (.ite Iff.rfl (count_like _) (.pure trivial))

/-! ## Steps -/

variable {slot slot' : Slot} {rest rest' : List Slot} {goal : Goal}

/-- **A goal finds the same tuples.** -/
theorem matching_like (hslot : slot.Like k ρ slot') (hgoal : slot.step = .lookup goal) :
    Like k n ρ Eq (matching cx task slot goal) (matching cx' task' slot' (goal.rename ρ)) := by
  rw [matching, matching, hcx.functions, hcx.listing, htask.seed]
  refine .bind .get fun w w' hw => .bind (.ofExcept (goal.key_rename hw.bindings)) ?_
  rintro key _ rfl
  have found : cx.listing.lookup w'.world.store (goal.rename ρ).relation key slot'.index =
      cx.listing.lookup w.world.store goal.relation key slot.index :=
    hw.world.store.like.listed_eq (hslot.index goal hgoal) cx.listing key
  have delta : (goal.rename ρ).delta = goal.delta := rfl
  rw [found, delta]
  split <;> exact .pure rfl

variable (hρ : Var.Renumbers n ρ)
include hρ

omit htask in
theorem perform_like (hslot : slot.Like k ρ slot') :
    Like k n ρ Eq (perform cx slot) (perform cx' slot') := by
  rw [perform, perform, hcx.functions, hslot.step]
  refine .bind .get fun w w' hw => ?_
  cases hstep : slot.step with
  | assign v t =>
    exact .bind (.ofExcept (Step.performAssign_rename hρ.injective hw.bindings v t))
      fun b b' hb => .bind (.set (hw.withBindings hb)) fun _ _ _ => .pure rfl
  | check l r negated => exact .ofExcept (Step.performCheck_rename hw.bindings l r negated)
  | destruct t f ys =>
    refine .bind (.ofExcept (Step.performDestruct_rename hρ.injective hw.bindings t f ys))
      fun x y hxy => ?_
    cases hxy with
    | none => exact .pure rfl
    | some hb => exact .bind (.set (hw.withBindings hb)) fun _ _ _ => .pure rfl
  | lookup goal =>
    refine .bind (.ofExcept (goal.key_rename hw.bindings)) ?_
    rintro key _ rfl
    have found : w'.world.store.hasMatch (goal.rename ρ).relation key slot'.index =
        w.world.store.hasMatch goal.relation key slot.index :=
      hw.world.store.like.hasMatch_eq (hslot.index goal hstep) key
    rw [found]
    exact .pure rfl

/-- **The same tuples are handed on**, with bindings that correspond. -/
theorem shareOut_like (hslot : slot.Like k ρ slot') (hrest : List.Forall₂ (Slot.Like k ρ) rest rest')
    (tuples : List Tuple) : Like k n ρ Eq (shareOut cx task slot goal rest tuples)
      (shareOut cx' task' slot' (goal.rename ρ) rest' tuples) := by
  rw [shareOut, shareOut, batchSize, batchSize, hcx.settings, hslot.split]
  split
  · exact .pure rfl
  · next first others _ =>
    refine .bind .get fun w w' hw => .bind (.forM (List.forall₂_same.2 fun _ _ => rfl) ?_)
      fun _ _ _ => .pure rfl
    rintro tuples _ rfl
    exact spawn_like ⟨ρ, hρ, htask.clause, htask.seed, htask.generation,
      .some ⟨rfl, rfl, hrest, hw.bindings⟩⟩

omit htask in
theorem take_like (tuple : Tuple) :
    Like k n ρ Done (take cx goal tuple) (take cx' (goal.rename ρ) tuple) := by
  rw [take, take, hcx.settings]
  have bound : Like k n ρ Done
      (modify fun w => { w with bindings := goal.bind tuple w.bindings })
      (modify fun w => { w with bindings := (goal.rename ρ).bind tuple w.bindings }) :=
    .modify fun _ _ h => h.withBindings (h.bindings.bind hρ.injective goal tuple)
  exact .ite Iff.rfl (.bind (count_like _) fun _ _ _ => bound) bound

/-! ## The search -/

/-- **The search goes the same way**, if what it finds does. -/
theorem search_like {found found' : Work Unit} (hfound : Like k n ρ Done found found')
    {slots slots' : List Slot} (hslots : List.Forall₂ (Slot.Like k ρ) slots slots') :
    Like k n ρ Done (search cx task found slots) (search cx' task' found' slots') := by
  induction hslots with
  | nil => exact hfound
  | @cons slot slot' rest rest' hslot hrest ih =>
    rw [search, search, hslot.step, Step.positiveGoal?_rename]
    cases positive : slot.step.positiveGoal? with
    | some goal =>
      refine .bind (.within (matching_like hcx htask hslot (step_of_positive positive).1)
        fun _ _ => .step _) ?_
      rintro tuples _ rfl
      refine .bind (shareOut_like hcx htask hρ hslot hrest tuples) ?_
      rintro tuples _ rfl
      refine .forM (List.forall₂_same.2 fun _ _ => rfl) ?_
      rintro tuple _ rfl
      exact .bind (take_like hcx hρ tuple) fun _ _ _ => ih
    | none =>
      refine .bind (.within (perform_like hcx hρ hslot) fun _ _ => .step _) ?_
      rintro go _ rfl
      exact .ite Iff.rfl ih (.pure trivial)

omit hρ in
/-- **Ending a task**, well or with a fault. -/
theorem settle_like {work work' : Work Unit} (h : Like k n ρ Done work work') :
    Like k n ρ Done (settle cx task failed work) (settle cx' task' failed work') := by
  have finish : Like k n ρ Done (do setOff cx task failed; record cx task.clause)
      (do setOff cx' task' failed; record cx' task'.clause) :=
    .bind (setOff_like hcx htask) fun _ _ _ => record_like hcx _ _
  intro w w' hw
  have first := h w w' hw
  unfold settle
  generalize work w = result, work' w' = result' at first
  cases first with
  | ok hw _ => exact finish _ _ hw
  | error hw h =>
    cases h with
    | fault h => exact InStep.bind finish (fun _ _ _ => .throw (.fault h)) _ _ hw
    | crash message => exact .error hw (.crash message)

theorem resume_like (hrest : List.Forall₂ (Slot.Like k ρ) rest rest') (tuples : List Tuple) :
    Like k n ρ Done (resume cx task failed goal rest tuples)
      (resume cx' task' failed (goal.rename ρ) rest' tuples) := by
  refine settle_like hcx htask (.forM (List.forall₂_same.2 fun _ _ => rfl) ?_)
  rintro tuple _ rfl
  exact .bind (take_like hcx hρ tuple) fun _ _ _ =>
    search_like hcx htask hρ (conclude_like hcx htask) hrest

theorem approach_like {slots slots' : List Slot}
    (hslots : List.Forall₂ (Slot.Like k ρ) slots slots') :
    Like k n ρ Done (approach cx task failed slots) (approach cx' task' failed slots') := by
  induction hslots with
  | nil => exact settle_like hcx htask (conclude_like hcx htask)
  | @cons slot slot' rest rest' hslot hrest ih =>
    rw [approach, approach, hslot.step, Step.positiveGoal?_rename]
    cases positive : slot.step.positiveGoal? with
    | some goal =>
      refine .bind (.within (matching_like hcx htask hslot (step_of_positive positive).1)
        fun _ _ => .step _) ?_
      rintro tuples _ rfl
      refine .bind (record_like hcx _ _) fun _ _ _ => .bind (shareOut_like hcx htask hρ hslot hrest
        tuples) ?_
      rintro tuples _ rfl
      exact resume_like hcx htask hρ hrest tuples
    | none =>
      refine .bind (.within (perform_like hcx hρ hslot) fun _ _ => .step _) ?_
      rintro go _ rfl
      exact .ite Iff.rfl ih (record_like hcx _ _)

/-- **What a task does.** -/
theorem work_like : Like k n ρ Done (task.work cx failed) (task'.work cx' failed) := by
  rw [Task.work, Task.work]
  have places := htask.resumption
  generalize task.resumption = x, task'.resumption = y at places
  cases places with
  | none => exact approach_like hcx htask hρ htask.clause.body
  | some h =>
    dsimp only
    rw [h.goal, h.tuples]
    exact resume_like hcx htask hρ h.rest _

end

end Work

/-! ## Whole tasks -/

/-- **What tasks that correspond leave behind.** -/
structure Outcome.Like (k : Relation → Nat) (n : Nat) (o o' : Outcome Task World) : Prop where
  world : o.world.Like k o'.world
  spawned : List.Forall₂ (Task.Like k n) o.spawned o'.spawned
  fault : Option.Rel (Fault.Like n) o.fault? o'.fault?

/-- **Tasks that correspond do the same.** -/
theorem Task.run_like {cx cx' : Context} {task task' : Task} {w w' : World} {failed : Bool}
    (hcx : cx.Like k n cx') (htask : task.Like k n task') (hw : w.Like k w') :
    (task.run cx failed w).Like k n (task'.run cx' failed w') := by
  obtain ⟨ρ, hρ, htask⟩ := htask
  have bindings : Bindings.Like ρ ((task.resumption.map (·.bindings)).getD ∅)
      ((task'.resumption.map (·.bindings)).getD ∅) := by
    have places := htask.resumption
    generalize task.resumption = x, task'.resumption = y at places
    cases places with
    | none => exact .empty
    | some h => exact h.bindings
  have start : Worker.Like k n ρ
      { world := w, bindings := (task.resumption.map (·.bindings)).getD ∅ }
      { world := w', bindings := (task'.resumption.map (·.bindings)).getD ∅ } :=
    ⟨hw, bindings, rfl, .nil⟩
  have work : Work.Like k n ρ Work.Done (task.work cx failed) (task'.work cx' failed) :=
    Work.work_like hcx htask hρ
  have ends := work _ _ start
  rw [Task.run, Task.run]
  generalize task.work cx failed _ = result, task'.work cx' failed _ = result' at ends ⊢
  cases ends with
  | ok hw _ => exact ⟨hw.world, hw.spawned, .none⟩
  | error hw h =>
    refine ⟨hw.world, hw.spawned, .some ?_⟩
    cases h with
    | fault h => exact ⟨ρ, hρ, htask.clause.rule h⟩
    | crash message => exact ⟨ρ, hρ, .same _⟩

end Datalog
