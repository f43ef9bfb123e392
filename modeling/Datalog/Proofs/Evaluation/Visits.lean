import Datalog.Proofs.Evaluation.Run

/-!
# Proofs/Evaluation/Visits — the agendas that an evaluation comes to

Between two tasks an evaluation is an agenda.  One is reached from another by running waiting tasks
in any order (`Agenda.Reaches`), and an evaluation visits what its base round and every further
round reach (`Evaluation.Visits`), whether or not it ends.  If the tasks that a task makes rank
below it, an agenda runs until nothing waits, on any policy (`Agenda.exists_drain`).
-/

namespace Datalog

variable {τ : Type u} {σ : Type v}

namespace Agenda

variable {run : Behaviour τ σ} {policy : Policy τ σ} {a b : Agenda τ σ} {budget : Nat}

/-- **The agenda is reached** by running waiting tasks, in whatever order. -/
inductive Reaches (run : Behaviour τ σ) (a : Agenda τ σ) : Agenda τ σ → Prop
  | refl : Reaches run a a
  | step {b : Agenda τ σ} {i : Nat} {task : τ} (h : Reaches run a b)
      (hi : b.waiting[i]? = some task) : Reaches run a (b.runAt run i)

/-- What every task keeps holds of every agenda reached. -/
theorem Reaches.invariant {P : Agenda τ σ → Prop} (h : a.Reaches run b)
    (step : ∀ (a : Agenda τ σ) (i : Nat) (task : τ), a.waiting[i]? = some task → P a →
      P (a.runAt run i)) (ha : P a) : P b := by
  induction h with
  | refl => exact ha
  | step _ hi ih => exact step _ _ _ hi ih

/-- What every task keeps of the world. -/
theorem Reaches.keeps {W : σ → Prop} (h : a.Reaches run b)
    (step : ∀ failed task world, W world → W (run failed task world).world) (ha : W a.world) :
    W b.world := by
  refine h.invariant (P := fun a => W a.world) (fun a i task hi world => ?_) ha
  rw [runAt, hi]
  exact step _ task _ world

theorem reaches_of_drain (h : drain run policy budget a = some b) :
    a.Reaches run b ∧ b.waiting = [] :=
  drain_invariant (P := a.Reaches run) (fun _ _ _ hi reaches => reaches.step hi) h .refl

theorem result_error_iff {f : Fault} : a.result = .error f ↔ a.fault = some f := by
  rw [result]
  cases a.fault <;> simp

/-- **Tasks of lower rank cannot be made for ever**: if every task burns fuel, or else all tasks
that it makes rank below it, some number of tasks is enough. -/
theorem exists_drain {P : Agenda τ σ → Prop} (rank : τ → Nat) (fuel : σ → Nat)
    (step : ∀ (a : Agenda τ σ) (i : Nat) (task : τ), a.waiting[i]? = some task → P a →
      P (a.runAt run i) ∧ (fuel (run a.fault.isSome task a.world).world < fuel a.world ∨
        (fuel (run a.fault.isSome task a.world).world = fuel a.world ∧
          ∀ t ∈ (run a.fault.isSome task a.world).spawned, rank t < rank task)))
    (ha : P a) : ∃ enough b, ∀ budget ≥ enough, drain run policy budget a = some b := by
  have ranks := (wellFounded_lt : WellFounded ((· < ·) : Nat → Nat → Prop)).cutExpand
  have wf := (wellFounded_lt : WellFounded ((· < ·) : Nat → Nat → Prop)).prod_lex ranks
  generalize hm : (fuel a.world, (a.waiting.map rank : Multiset Nat)) = m
  induction m using wf.induction generalizing a with
  | h m ih =>
  by_cases hempty : a.waiting = []
  · refine ⟨0, a, fun budget _ => ?_⟩
    cases budget <;> simp [drain, hempty]
  have hpos : 0 < a.waiting.length := List.length_pos_iff.2 hempty
  obtain ⟨i, hpick⟩ : ∃ i, policy a % a.waiting.length = i := ⟨_, rfl⟩
  obtain ⟨task, hi⟩ : ∃ task, a.waiting[i]? = some task :=
    ⟨_, List.getElem?_eq_getElem (hpick ▸ Nat.mod_lt _ hpos)⟩
  obtain ⟨next, lower⟩ := step a i task hi ha
  have world : (a.runAt run i).world = (run a.fault.isSome task a.world).world := by
    rw [runAt, hi]
  have waiting : (a.runAt run i).waiting =
      (run a.fault.isSome task a.world).spawned ++ a.waiting.eraseIdx i := by
    rw [runAt, hi]
  have descends : Prod.Lex (· < ·) (Relation.CutExpand (· < ·)) (fuel (a.runAt run i).world,
      (((a.runAt run i).waiting.map rank : List Nat) : Multiset Nat)) m := by
    rw [← hm, world]
    rcases lower with burns | ⟨level, lower⟩
    · exact .left _ _ burns
    · rw [level]
      -- the multiset of ranks loses that of the task and gains lower ones
      refine .right _ ⟨((run a.fault.isSome task a.world).spawned.map rank : List Nat),
        rank task, ?_, ?_⟩
      · simpa using lower
      · have perm := (perm_waiting hi).map rank
        rw [← Multiset.coe_eq_coe.2 perm, waiting, List.map_append, List.map_cons,
          ← Multiset.coe_add, ← Multiset.cons_coe, ← Multiset.singleton_add]
        abel
  obtain ⟨enough, b, h⟩ := ih _ descends next rfl
  refine ⟨enough + 1, b, fun budget hbudget => ?_⟩
  obtain ⟨budget, rfl⟩ : ∃ n, budget = n + 1 := ⟨budget - 1, by omega⟩
  rw [drain, if_neg (by simpa using hempty), Agenda.step, hpick]
  exact h budget (by omega)

end Agenda

namespace Evaluation

variable {schedule : Schedule} {budget : Nat} {e e' : Evaluation} {a : Agenda Task World}

/-- **The agenda is one that the evaluation comes to**, in its base round or in a round after one
that has ended well. -/
inductive Visits (e : Evaluation) : Agenda Task World → Prop
  | base {a : Agenda Task World}
      (reaches : (e.agenda (baseTasks e.context)).Reaches (Task.run e.context) a) : Visits e a
  | next {a b : Agenda Task World} (h : Visits e b) (waiting : b.waiting = [])
      (fine : b.fault = none)
      (reaches : ({ e with world := b.world }.agenda
        (seededTasks e.context b.world.delta)).Reaches (Task.run e.context) a) : Visits e a

/-- **What every task and every new round keeps** holds of every agenda visited. -/
theorem Visits.invariant {P : Agenda Task World → Prop} (h : e.Visits a)
    (base : P (e.agenda (baseTasks e.context)))
    (step : ∀ (a : Agenda Task World) (i : Nat) (task : Task), a.waiting[i]? = some task → P a →
      P (a.runAt (Task.run e.context) i))
    (next : ∀ a : Agenda Task World, P a → a.waiting = [] → a.fault = none →
      P ({ e with world := a.world }.agenda (seededTasks e.context a.world.delta))) : P a := by
  induction h with
  | base reaches => exact reaches.invariant step base
  | next _ waiting fine reaches ih => exact reaches.invariant step (next _ ih waiting fine)

/-- **What every task and every new round keep** of the world and of the tasks that wait. -/
theorem Visits.keeps {W : World → Prop} {T : Task → Prop} (h : e.Visits a)
    (base : W (e.agenda (baseTasks e.context)).world ∧ ∀ t ∈ baseTasks e.context, T t)
    (step : ∀ failed (task : Task) (world : World), T task → W world →
      W (task.run e.context failed world).world ∧
        ∀ t ∈ (task.run e.context failed world).spawned, T t)
    (next : ∀ world : World, W world →
      W ({ e with world }.agenda (seededTasks e.context world.delta)).world ∧
        ∀ t ∈ seededTasks e.context world.delta, T t) :
    W a.world ∧ ∀ t ∈ a.waiting, T t := by
  refine h.invariant (P := fun a => W a.world ∧ ∀ t ∈ a.waiting, T t)
    ⟨base.1, fun t ht => base.2 t (List.mem_reverse.1 ht)⟩ ?_
    fun a ⟨world, _⟩ _ _ => ⟨(next a.world world).1, fun t ht => ?_⟩
  · intro a i task hi ⟨world, waiting⟩
    obtain ⟨world', spawned⟩ := step a.fault.isSome task a.world
      (waiting task (List.mem_iff_getElem?.2 ⟨i, hi⟩)) world
    rw [Agenda.runAt, hi]
    exact ⟨world', List.forall_mem_append.2 ⟨spawned, fun t ht =>
      waiting t (List.mem_of_mem_eraseIdx ht)⟩⟩
  · exact (next a.world world).2 t (List.mem_reverse.1 ht)

/-- **The agenda is one of the round with that number**, which starts from the store.  The base round
is the first; a further round is run if the one before it has ended well and left seeds for tasks. -/
inductive InRound (e : Evaluation) : Nat → Store → Agenda Task World → Prop
  | base {a : Agenda Task World}
      (reaches : (e.agenda (baseTasks e.context)).Reaches (Task.run e.context) a) :
      InRound e 1 e.world.store a
  | next {n : Nat} {start : Store} {a b : Agenda Task World} (h : InRound e n start b)
      (waiting : b.waiting = []) (fine : b.fault = none)
      (more : seededTasks e.context b.world.delta ≠ [])
      (reaches : ({ e with world := b.world }.agenda
        (seededTasks e.context b.world.delta)).Reaches (Task.run e.context) a) :
      InRound e (n + 1) b.world.store a

namespace InRound

variable {n : Nat} {start : Store}

theorem visits (h : e.InRound n start a) : e.Visits a := by
  induction h with
  | base reaches => exact .base reaches
  | next _ waiting fine _ reaches ih => exact ih.next waiting fine reaches

theorem runAt (h : e.InRound n start a) {i : Nat} {task : Task} (hi : a.waiting[i]? = some task) :
    e.InRound n start (a.runAt (Task.run e.context) i) := by
  cases h with
  | base reaches => exact .base (reaches.step hi)
  | next h waiting fine more reaches => exact .next h waiting fine more (reaches.step hi)

/-- A round is run to its end, if the one before it has ended well and left seeds for tasks. -/
theorem next_of_drain {b : Agenda Task World} (h : e.InRound n start b) (waiting : b.waiting = [])
    (fine : b.fault = none) (more : seededTasks e.context b.world.delta ≠ [])
    (drain : Agenda.drain (Task.run e.context) schedule budget
      ({ e with world := b.world }.agenda (seededTasks e.context b.world.delta)) = some a) :
    e.InRound (n + 1) b.world.store a ∧ a.waiting = [] := by
  obtain ⟨reaches, waiting'⟩ := Agenda.reaches_of_drain drain
  exact ⟨h.next waiting fine more reaches, waiting'⟩

end InRound

/-- **An evaluation ends in some round**, with nothing waiting any more. -/
theorem exists_last_round {result : Except Fault Summary}
    (h : run schedule budget e = some (e', result)) : e'.context = e.context ∧
      ∃ n start a, e.InRound n start a ∧ a.waiting = [] ∧ e'.world = a.world ∧
        ∀ f, result = .error f ↔ a.fault = some f := by
  obtain ⟨e₁, r, ⟨context, n, start, a, inRound, waiting, world, hresult⟩, last, same⟩ := exists_last
    (P := fun e₁ r => e₁.context = e.context ∧ ∃ n start a, e.InRound n start a ∧
      a.waiting = [] ∧ e₁.world = a.world ∧ a.result = r)
    (fun e₁ e₂ number u r ⟨context, n, start, a, inRound, waiting, world, ok⟩ more hround => by
      obtain ⟨b, hdrain, hresult, rfl⟩ := exists_agenda hround
      have fine : a.fault = none := by
        rw [Agenda.result] at ok
        cases hfault : a.fault with
        | none => rfl
        | some f => simp [hfault] at ok
      dsimp only at hdrain
      rw [agenda, world, context] at hdrain
      rw [world, context] at more
      obtain ⟨inRound', waiting'⟩ := inRound.next_of_drain waiting fine more hdrain
      exact ⟨context, n + 1, a.world.store, b, inRound', waiting', rfl, hresult⟩)
    h fun e₁ r hround => by
      obtain ⟨a, hdrain, hresult, rfl⟩ := exists_agenda hround
      obtain ⟨reaches, waiting⟩ := Agenda.reaches_of_drain hdrain
      exact ⟨rfl, 1, e.world.store, a, .base reaches, waiting, rfl, hresult⟩
  have told (f : Fault) : result = .error f ↔ a.fault = some f := by
    rw [same, ← hresult, Agenda.result_error_iff]
  cases last with
  | done _ => exact ⟨context, n, start, a, inRound, waiting, world, told⟩
  | failed => exact ⟨context, n, start, a, inRound, waiting, world, told⟩

/-- **Where an evaluation ends** it has come to. -/
theorem exists_visit {result : Except Fault Summary}
    (h : run schedule budget e = some (e', result)) : e'.context = e.context ∧
      ∃ a, e.Visits a ∧ a.waiting = [] ∧ e'.world = a.world ∧
        ∀ f, result = .error f ↔ a.fault = some f := by
  obtain ⟨context, _, _, a, inRound, rest⟩ := exists_last_round h
  exact ⟨context, a, inRound.visits, rest⟩

end Evaluation

end Datalog
