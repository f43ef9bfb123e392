import Datalog.Database.Basic
import Datalog.Proofs.Renumbering.Work

/-!
# Proofs/Renumbering/Evaluation — the same evaluation with other variables

Agendas of tasks that correspond come, task by task, to agendas that correspond, if the tasks are
taken in the same order.  So rounds and evaluations do, and running a database all of whose strata
correspond to those of another: the facts are the same, and so is the outcome, up to the numbering
of variables in a fault.
-/

namespace Datalog

open Outcome (Pair)

variable {k : Relation → Nat} {n : Nat}

/-! ## Agendas -/

/-- **Agendas that correspond.** -/
structure Agenda.Like (k : Relation → Nat) (n : Nat) (a a' : Agenda Task World) : Prop where
  world : a.world.Like k a'.world
  waiting : List.Forall₂ (Task.Like k n) a.waiting a'.waiting
  finished : a'.finished.length = a.finished.length
  fault : Option.Rel (Fault.Like n) a.fault a'.fault

namespace Agenda.Like

variable {cx cx' : Context} {a a' : Agenda Task World}

/-- **One task more.** -/
theorem runAt (hcx : cx.Like k n cx') (h : a.Like k n a') (i : Nat) :
    Agenda.Like k n (a.runAt (Task.run cx) i) (a'.runAt (Task.run cx') i) := by
  have picked := Outcome.rel_getElem? h.waiting i
  rw [Agenda.runAt, Agenda.runAt]
  generalize a.waiting[i]? = x, a'.waiting[i]? = y at picked
  cases picked with
  | none => exact h
  | @some task task' htask =>
    have failed : a'.fault.isSome = a.fault.isSome := by
      have faults := h.fault
      generalize a.fault = x, a'.fault = y at faults
      cases faults <;> rfl
    have ran : (task.run cx a.fault.isSome a.world).Like k n
        (task'.run cx' a.fault.isSome a'.world) := Task.run_like hcx htask h.world
    rw [failed]
    refine ⟨ran.world, List.rel_append ran.spawned (Outcome.forall₂_eraseIdx h.waiting i),
      congrArg (· + 1) h.finished, ?_⟩
    have faults := h.fault
    dsimp only
    generalize a.fault = x, a'.fault = y at faults ran ⊢
    cases faults with
    | none => exact ran.fault
    | some hf => exact .some hf

/-- **Until nothing waits**, in the same order. -/
theorem drain (hcx : cx.Like k n cx') (order : Order) (budget : Nat) (h : a.Like k n a') :
    Option.Rel (Agenda.Like k n) (a.drain (Task.run cx) order.schedule budget)
      (a'.drain (Task.run cx') order.schedule budget) := by
  induction budget generalizing a a' with
  | zero =>
    rw [Agenda.drain, Agenda.drain, Outcome.isEmpty_of_forall₂ h.waiting]
    split
    · exact .some h
    · exact .none
  | succ budget ih =>
    rw [Agenda.drain, Agenda.drain, Outcome.isEmpty_of_forall₂ h.waiting]
    split
    · exact .some h
    · have next : order.schedule a' % a'.waiting.length = order.schedule a % a.waiting.length := by
        rw [Order.schedule, Order.schedule, h.world.counters, h.finished, h.waiting.length_eq]
      refine ih ?_
      rw [step, step, next]
      exact h.runAt hcx _

theorem result (h : a.Like k n a') : Pair (Fault.Like n) Eq a.result a'.result := by
  have faults := h.fault
  rw [Agenda.result, Agenda.result]
  generalize a.fault = x, a'.fault = y at faults
  cases faults with
  | none => exact .ok rfl
  | some hf => exact .error hf

end Agenda.Like

/-! ## Rounds -/

namespace Evaluation

/-- **Evaluations that correspond.** -/
structure Like (k : Relation → Nat) (n : Nat) (e e' : Evaluation) : Prop where
  context : e.context.Like k n e'.context
  world : e.world.Like k e'.world

/-- Evaluations that correspond, and results that do. -/
def Ends {α : Type} (k : Relation → Nat) (n : Nat) (x y : Evaluation × Except Fault α) : Prop :=
  x.1.Like k n y.1 ∧ Pair (Fault.Like n) Eq x.2 y.2

/-- **One round.** -/
theorem Like.round {e e' : Evaluation} (h : e.Like k n e') (order : Order) (budget : Nat)
    {tasks tasks' : List Task} (htasks : List.Forall₂ (Task.Like k n) tasks tasks') :
    Option.Rel (Ends k n) (e.round order.schedule budget tasks)
      (e'.round order.schedule budget tasks') := by
  rw [Evaluation.round, Evaluation.round]
  refine Outcome.rel_bind (Agenda.Like.drain h.context order budget ⟨⟨h.world.store, rfl, ?_,
    h.world.echoed⟩, List.rel_reverse htasks, rfl, .none⟩) fun a a' ha =>
      .some ⟨⟨h.context, ha.world⟩, ha.result⟩
  rw [h.world.counters, htasks.length_eq]

theorem baseTasks_like {cx cx' : Context} (h : cx.Like k n cx') :
    List.Forall₂ (Task.Like k n) (baseTasks cx) (baseTasks cx') :=
  List.forall₂_map_left_iff.2 (List.forall₂_map_right_iff.2 (h.stratum.base.imp
    fun _ _ ⟨ρ, hρ, hc⟩ => ⟨ρ, hρ, hc, rfl, rfl, .none⟩))

/-- **The same new tuples** seed clauses that correspond. -/
theorem seededTasks_like {cx cx' : Context} (h : cx.Like k n cx')
    (delta : Assoc Relation (List Tuple)) :
    List.Forall₂ (Task.Like k n) (seededTasks cx delta) (seededTasks cx' delta) := by
  rw [seededTasks, seededTasks, h.listing]
  refine List.rel_flatMap h.stratum.recursive ?_
  rintro ⟨r, clauses⟩ ⟨_, clauses'⟩ ⟨rfl, hclauses⟩
  dsimp only
  split
  · exact .nil
  · exact List.forall₂_map_left_iff.2 (List.forall₂_map_right_iff.2 (hclauses.imp
      fun _ _ ⟨ρ, hρ, hc⟩ => ⟨ρ, hρ, hc, rfl, rfl, .none⟩))

/-- **Round after round.** -/
theorem Like.rounds {e e' : Evaluation} (h : e.Like k n e') (order : Order)
    (budget limit number : Nat) :
    Option.Rel (Ends k n) (e.rounds order.schedule budget limit number)
      (e'.rounds order.schedule budget limit number) := by
  induction limit generalizing e e' number with
  | zero =>
    have tasks := seededTasks_like h.context e.world.delta
    rw [Evaluation.rounds, Evaluation.rounds, h.world.delta]
    generalize seededTasks e.context e.world.delta = ts,
      seededTasks e'.context e.world.delta = ts' at tasks
    cases tasks with
    | nil => exact .some ⟨⟨h.context, h.world⟩, .ok rfl⟩
    | cons first rest => exact .none
  | succ limit ih =>
    have tasks := seededTasks_like h.context e.world.delta
    rw [Evaluation.rounds, Evaluation.rounds, h.world.delta]
    generalize seededTasks e.context e.world.delta = ts,
      seededTasks e'.context e.world.delta = ts' at tasks
    cases tasks with
    | nil => exact .some ⟨⟨h.context, h.world⟩, .ok rfl⟩
    | cons first rest =>
      have begun : Like k n { e with phase := .recursiveRound number }
          { e' with phase := .recursiveRound number } := ⟨h.context, h.world⟩
      refine Outcome.rel_bind (begun.round order budget (.cons first rest)) ?_
      rintro ⟨e, result⟩ ⟨e', result'⟩ ⟨h, results⟩
      cases results with
      | ok => exact ih h (number + 1)
      | error hf => exact .some ⟨⟨h.context, h.world⟩, .error hf⟩

/-- **To the fixpoint.** -/
theorem Like.run {e e' : Evaluation} (h : e.Like k n e') (order : Order) (budget : Nat) :
    Option.Rel (Ends k n) (e.run order.schedule budget) (e'.run order.schedule budget) := by
  have begun : Like k n { e with phase := .baseRound } { e' with phase := .baseRound } :=
    ⟨h.context, h.world⟩
  rw [Evaluation.run, Evaluation.run]
  refine Outcome.rel_bind (begun.round order budget (baseTasks_like h.context)) ?_
  rintro ⟨e₁, result⟩ ⟨e₁', result'⟩ ⟨h₁, results⟩
  cases results with
  | error hf => exact .some ⟨⟨h₁.context, h₁.world⟩, .error hf⟩
  | ok =>
    refine Outcome.rel_bind (h₁.rounds order budget budget 1) ?_
    rintro ⟨e₂, result⟩ ⟨e₂', result'⟩ ⟨h₂, results⟩
    cases results with
    | error hf => exact .some ⟨h₂, .error hf⟩
    | ok =>
      refine .some ⟨h₂, .ok ?_⟩
      rw [h₂.world.counters, h.world.counters]

end Evaluation

end Datalog
