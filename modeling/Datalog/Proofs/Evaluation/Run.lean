import Datalog.Evaluation.Fixpoint
import Datalog.Proofs.Outcome
import Datalog.Stratum.Plan

/-!
# Proofs/Evaluation/Run — what a run preserves

What every task keeps, an agenda keeps, whatever the policy (`Agenda.drain_invariant`).  If it ends
without a fault, every task on it has ended well, so an invariant only has to survive those
(`Agenda.drain_induction`).  An evaluation is a base round and rounds over what was new, until
nothing is or one fails (`Evaluation.exists_last`).
-/

namespace Datalog

variable {τ : Type u} {σ : Type v}

theorem Outcome.fault?_eq_none_iff {o : Outcome τ σ} : o.fault? = none ↔ o.result = .ok () := by
  rw [fault?]
  cases o.result <;> simp

namespace Agenda

variable {run : Behaviour τ σ} {policy : Policy τ σ}

/-- The agenda after the waiting task at `i` has ended well. -/
def ranAt (a : Agenda τ σ) (i : Nat) (task : τ) (o : Outcome τ σ) : Agenda τ σ where
  world := o.world
  waiting := o.spawned ++ a.waiting.eraseIdx i
  finished := task :: a.finished

/-- Nothing has failed if nothing had before and the task ends well. -/
theorem fault_runAt_eq_none_iff {a : Agenda τ σ} {i : Nat} {task : τ}
    (h : a.waiting[i]? = some task) : (a.runAt run i).fault = none ↔
      a.fault = none ∧ (run a.fault.isSome task a.world).result = .ok () := by
  rw [runAt, h]
  dsimp only
  rw [Option.orElse_eq_orElse, Option.orElse_eq_or, Option.or_eq_none_iff,
    Outcome.fault?_eq_none_iff]

/-- **Where something has failed**, it had before, or the task fails. -/
theorem exists_error_of_fault_runAt {a : Agenda τ σ} {i : Nat} {task : τ}
    (h : a.waiting[i]? = some task) (hfault : (a.runAt run i).fault ≠ none) :
    a.fault ≠ none ∨ ∃ f, (run a.fault.isSome task a.world).result = .error f := by
  by_contra fine
  rw [not_or, not_not, not_exists] at fine
  refine hfault ((fault_runAt_eq_none_iff h).2 ⟨fine.1, ?_⟩)
  cases hresult : (run a.fault.isSome task a.world).result with
  | ok u => rfl
  | error f => exact (fine.2 f hresult).elim

/-- **The fault of an agenda** was there before, or it is what has become of the task. -/
theorem exists_abort_of_fault_runAt {a : Agenda τ σ} {i : Nat} {task : τ} {f : Fault}
    (h : a.waiting[i]? = some task) (hfault : (a.runAt run i).fault = some f) :
    a.fault = some f ∨ ∃ abort, (run a.fault.isSome task a.world).result = .error abort ∧
      f = abort.toFault := by
  rw [runAt, h] at hfault
  dsimp only at hfault
  rw [Option.orElse_eq_orElse, Option.orElse_eq_or] at hfault
  refine (Option.or_eq_some_iff.1 hfault).imp_right fun ⟨_, hfault⟩ => ?_
  rw [Outcome.fault?] at hfault
  cases hresult : (run a.fault.isSome task a.world).result with
  | ok u =>
    rw [hresult] at hfault
    cases hfault
  | error abort =>
    rw [hresult] at hfault
    exact ⟨abort, rfl, (Option.some.inj hfault).symm⟩

theorem runAt_eq_ranAt {a : Agenda τ σ} {i : Nat} {task : τ} (h : a.waiting[i]? = some task)
    (hfault : a.fault = none) (ok : (run false task a.world).result = .ok ()) :
    a.runAt run i = a.ranAt i task (run false task a.world) := by
  rw [runAt, h]
  dsimp only
  rw [hfault, Option.isSome_none, Outcome.fault?_eq_none_iff.2 ok]
  rfl

/-- The task at `i` stands for itself and the others. -/
theorem perm_waiting {a : Agenda τ σ} {i : Nat} {task : τ} (h : a.waiting[i]? = some task) :
    (task :: a.waiting.eraseIdx i).Perm a.waiting := by
  obtain ⟨hi, rfl⟩ := List.getElem?_eq_some_iff.1 h
  exact List.getElem_cons_eraseIdx_perm hi

/-- **What every task keeps**, however it ends, holds when nothing waits any more. -/
theorem drain_invariant {P : Agenda τ σ → Prop}
    (step : ∀ (a : Agenda τ σ) (i : Nat) (task : τ), a.waiting[i]? = some task → P a →
      P (a.runAt run i))
    {budget : Nat} {a b : Agenda τ σ} (h : drain run policy budget a = some b) (ha : P a) :
    P b ∧ b.waiting = [] := by
  induction budget generalizing a with
  | zero =>
    rw [drain] at h
    split at h
    · next hempty =>
      cases h
      exact ⟨ha, List.isEmpty_iff.1 hempty⟩
    · cases h
  | succ budget ih =>
    rw [drain] at h
    split at h
    · next hempty =>
      cases h
      exact ⟨ha, List.isEmpty_iff.1 hempty⟩
    · next hempty =>
      have hpos : 0 < a.waiting.length := List.length_pos_iff.2 (by simpa using hempty)
      exact ih h (step a _ _ (List.getElem?_eq_getElem (Nat.mod_lt _ hpos)) ha)

/-- **An agenda without a fault in the end** had none on the way, and every task on it ended
well. -/
theorem drain_induction {P : Agenda τ σ → Prop}
    (step : ∀ (a : Agenda τ σ) (i : Nat) (task : τ), a.waiting[i]? = some task →
      (run false task a.world).result = .ok () → P a → P (a.ranAt i task (run false task a.world)))
    {budget : Nat} {a b : Agenda τ σ} (h : drain run policy budget a = some b)
    (hb : b.fault = none) (ha : P a) : P b ∧ b.waiting = [] := by
  -- a fault is never taken back, so as long as there is none there has not been any
  have unless_fault : ∀ (a : Agenda τ σ) (i : Nat) (task : τ), a.waiting[i]? = some task →
      (a.fault = none → P a) → (a.runAt run i).fault = none → P (a.runAt run i) := by
    intro a i task htask ih hnext
    obtain ⟨hfault, ok⟩ := (fault_runAt_eq_none_iff htask).1 hnext
    rw [hfault, Option.isSome_none] at ok
    rw [runAt_eq_ranAt htask hfault ok]
    exact step a i task htask ok (ih hfault)
  obtain ⟨hP, hwaiting⟩ := drain_invariant unless_fault h fun _ => ha
  exact ⟨hP hb, hwaiting⟩

end Agenda

namespace Evaluation

variable {schedule : Schedule} {budget : Nat} {e e' : Evaluation}

/-- The agenda that a round starts from. -/
def agenda (e : Evaluation) (tasks : List Task) : Agenda Task World where
  world := { e.world with
    delta := ∅
    counters := { e.world.counters with
      rounds := e.world.counters.rounds + 1
      tasks := e.world.counters.tasks + tasks.length } }
  waiting := tasks.reverse

/-- **A round** is an agenda that runs until nothing waits. -/
theorem round_eq_map {tasks : List Task} : round schedule budget tasks e =
    (Agenda.drain (Task.run e.context) schedule budget (e.agenda tasks)).map fun a =>
      ({ e with world := a.world, history := a.finished :: e.history }, a.result) := by
  rw [round, Option.map_eq_bind]
  rfl

theorem round_of_drain {tasks : List Task} {a : Agenda Task World}
    (h : Agenda.drain (Task.run e.context) schedule budget (e.agenda tasks) = some a) :
    round schedule budget tasks e =
      some ({ e with world := a.world, history := a.finished :: e.history }, a.result) := by
  rw [round_eq_map, h]
  rfl

theorem exists_agenda {tasks : List Task} {result : Except Fault Unit}
    (h : round schedule budget tasks e = some (e', result)) : ∃ a : Agenda Task World,
      Agenda.drain (Task.run e.context) schedule budget (e.agenda tasks) = some a ∧
        a.result = result ∧ e' = { e with world := a.world, history := a.finished :: e.history } := by
  rw [round_eq_map] at h
  obtain ⟨a, ha, h⟩ := Option.map_eq_some_iff.1 h
  obtain ⟨rfl, hresult⟩ := Prod.mk.inj h
  exact ⟨a, ha, hresult, rfl⟩

/-- **A round that ends well** is an agenda without a fault. -/
theorem round_ok {tasks : List Task} {u : Unit}
    (h : round schedule budget tasks e = some (e', .ok u)) : ∃ a : Agenda Task World,
      Agenda.drain (Task.run e.context) schedule budget (e.agenda tasks) = some a ∧
        a.fault = none ∧ e' = { e with world := a.world, history := a.finished :: e.history } := by
  obtain ⟨a, ha, hresult, rfl⟩ := exists_agenda h
  refine ⟨a, ha, ?_, rfl⟩
  rw [Agenda.result] at hresult
  split at hresult
  · cases hresult
  · assumption

/-- Where nothing is new the rounds are over. -/
theorem rounds_of_nil {limit number : Nat} (empty : seededTasks e.context e.world.delta = []) :
    rounds schedule budget limit number e = some ({ e with phase := .done }, .ok ()) := by
  cases limit <;> rw [rounds, empty]

/-- **Where something is new there is another round**, and if that ends well there are the rounds
after it. -/
theorem rounds_of_ne_nil {limit number : Nat}
    (more : seededTasks e.context e.world.delta ≠ []) :
    rounds schedule budget (limit + 1) number e =
      (round schedule budget (seededTasks e.context e.world.delta)
        { e with phase := .recursiveRound number }).bind fun
        | (e, .ok _) => rounds schedule budget limit (number + 1) e
        | (e, .error fault) => some ({ e with phase := .failed }, .error fault) := by
  rw [rounds]
  split
  · next empty => exact (more empty).elim
  · rfl

/-- **A round is the last one** if it has failed, or if it leaves nothing new. -/
inductive Last (e : Evaluation) : Evaluation → Except Fault Unit → Prop
  | done {u : Unit} (empty : seededTasks e.context e.world.delta = []) :
      Last e { e with phase := .done } (.ok u)
  | failed {fault : Fault} : Last e { e with phase := .failed } (.error fault)

section

variable {P : Evaluation → Except Fault Unit → Prop}
  (step : ∀ (e₁ e₂ : Evaluation) number u r, P e₁ (.ok u) →
    seededTasks e₁.context e₁.world.delta ≠ [] →
    round schedule budget (seededTasks e₁.context e₁.world.delta)
      { e₁ with phase := .recursiveRound number } = some (e₂, r) → P e₂ r)
include step

/-- What every round preserves, unless one fails before it, holds after the last one. -/
theorem exists_last_of_rounds {limit number : Nat} {u : Unit} {r : Except Fault Unit}
    (he : P e (.ok u)) (h : rounds schedule budget limit number e = some (e', r)) :
    ∃ e₁, P e₁ r ∧ Last e₁ e' r := by
  induction limit generalizing number e u with
  | zero =>
    rw [rounds] at h
    split at h
    · next hempty =>
      obtain ⟨rfl, rfl⟩ := Prod.mk.inj (Option.some.inj h)
      exact ⟨e, he, .done hempty⟩
    · cases h
  | succ limit ih =>
    rw [rounds] at h
    split at h
    · next hempty =>
      obtain ⟨rfl, rfl⟩ := Prod.mk.inj (Option.some.inj h)
      exact ⟨e, he, .done hempty⟩
    · next more =>
      dsimp only at h
      obtain ⟨⟨e₁, r₁⟩, hround, h⟩ := Option.bind_eq_some_iff.1 h
      have next := step e e₁ number u r₁ he more hround
      cases r₁ with
      | ok v => exact ih next h
      | error fault =>
        obtain ⟨rfl, rfl⟩ := Prod.mk.inj (Option.some.inj h)
        exact ⟨e₁, next, .failed⟩

/-- **What the base round establishes and every further round preserves**, unless one fails before
it, holds after the last one. -/
theorem exists_last {result : Except Fault Summary}
    (h : run schedule budget e = some (e', result))
    (base : ∀ e₁ r, round schedule budget (baseTasks e.context) { e with phase := .baseRound } =
      some (e₁, r) → P e₁ r) :
    ∃ e₁ r, P e₁ r ∧ Last e₁ e' r ∧ ∀ f, result = .error f ↔ r = .error f := by
  rw [run] at h
  obtain ⟨⟨e₁, r₁⟩, hround, h⟩ := Option.bind_eq_some_iff.1 h
  have first := base e₁ r₁ hround
  cases r₁ with
  | error fault =>
    cases h
    exact ⟨e₁, _, first, .failed, by simp⟩
  | ok v =>
    obtain ⟨⟨e₂, r₂⟩, hrounds, h⟩ := Option.bind_eq_some_iff.1 h
    obtain ⟨e₃, holds, last⟩ := exists_last_of_rounds step first hrounds
    refine ⟨e₃, r₂, holds, ?_⟩
    cases r₂ <;> cases h
    · exact ⟨last, by simp⟩
    · exact ⟨last, by simp⟩

end

/-- **What every round keeps**, however it ends, holds when the evaluation ends; `Q` is what a
fault in a round tells. -/
theorem run_invariant {P : Context → World → Prop} {Q : Prop} {result : Except Fault Summary}
    (h : run schedule budget e = some (e', result))
    (base : ∀ e₁ r, round schedule budget (baseTasks e.context) { e with phase := .baseRound } =
      some (e₁, r) → P e₁.context e₁.world ∧ ∀ f, r = .error f → Q)
    (step : ∀ (e₁ e₂ : Evaluation) number r, P e₁.context e₁.world →
      round schedule budget (seededTasks e₁.context e₁.world.delta)
        { e₁ with phase := .recursiveRound number } = some (e₂, r) →
      P e₂.context e₂.world ∧ ∀ f, r = .error f → Q) :
    P e'.context e'.world ∧ ∀ f, result = .error f → Q := by
  obtain ⟨e₁, r, ⟨holds, faults⟩, last, same⟩ := exists_last
    (P := fun e r => P e.context e.world ∧ ∀ f, r = .error f → Q)
    (fun e₁ e₂ number _ r holds _ hround => step e₁ e₂ number r holds.1 hround) h base
  refine ⟨?_, fun f hf => faults f ((same f).1 hf)⟩
  cases last with
  | done _ => exact holds
  | failed => exact holds

/-- **What the base round establishes and every further round preserves** holds in the end, and
then nothing is new. -/
theorem run_induction {P : Evaluation → Prop} {summary : Summary}
    (h : run schedule budget e = some (e', .ok summary))
    (base : ∀ e₁ u, round schedule budget (baseTasks e.context) { e with phase := .baseRound } =
      some (e₁, .ok u) → P e₁)
    (step : ∀ e₁ e₂ number u, P e₁ → round schedule budget (seededTasks e₁.context e₁.world.delta)
      { e₁ with phase := .recursiveRound number } = some (e₂, .ok u) → P e₂) :
    ∃ e₁, P e₁ ∧ seededTasks e₁.context e₁.world.delta = [] ∧ e' = { e₁ with phase := .done } := by
  obtain ⟨e₁, r, holds, last, same⟩ := exists_last (P := fun e r => ∀ u, r = .ok u → P e)
    (fun e₁ e₂ number u r holds _ hround v hr =>
      step e₁ e₂ number v (holds u rfl) (hr ▸ hround))
    h fun e₁ r hround u hr => base e₁ u (hr ▸ hround)
  cases last with
  | done empty => exact ⟨e₁, holds _ rfl, empty, rfl⟩
  | failed => cases (same _).2 rfl

/-- That an evaluation ends well can be computed. -/
theorem exists_ok {r : Option (Evaluation × Except Fault Summary)}
    (h : r.any (fun r => r.2.toBool) = true) : ∃ e summary, r = some (e, .ok summary) := by
  obtain ⟨⟨e, fault | summary⟩, rfl, h⟩ := (Option.any_eq_true ..).1 h
  · cases h
  · exact ⟨e, summary, rfl⟩

/-- That an evaluation fails can be computed. -/
theorem exists_error {r : Option (Evaluation × Except Fault Summary)}
    (h : r.any (fun r => !r.2.toBool) = true) : ∃ e fault, r = some (e, .error fault) := by
  obtain ⟨⟨e, fault | summary⟩, rfl, h⟩ := (Option.any_eq_true ..).1 h
  · exact ⟨e, fault, rfl⟩
  · cases h

end Evaluation

/-! ## An example -/

namespace Reach

/-- The edges, which are supplied. -/
def edge : Relation := ⟨"edge", 2, .extensional⟩

/-- The pairs of connected nodes. -/
def path : Relation := ⟨"path", 2, .bottomUp⟩

/-- `path(x, y) :- edge(x, y).` and `path(x, z) :- path(x, y), edge(y, z).` -/
def rules : List Rule :=
  let x : Term := .var ⟨"x", 0⟩
  let y : Term := .var ⟨"y", 0⟩
  let z : Term := .var ⟨"z", 0⟩
  [{ head := { relation := path, args := [x, y] }
     body := [.atom { relation := edge, args := [x, y] }] },
    { head := { relation := path, args := [x, z] }
      body := [.atom { relation := path, args := [x, y] },
        .atom { relation := edge, args := [y, z] }] }]

/-- The chain from 1 to 4. -/
def store : Store :=
  [[.int 1, .int 2], [.int 2, .int 3], [.int 3, .int 4]].foldl (fun s t => (s.add edge t).1) ∅

/-- The planned rules and the store with the indices they want. -/
def planned : Stratum × Store :=
  match Stratum.plan .assign ∅ rules { store, next := 1 } with
  | .ok stratum state => (stratum, state.store)
  | .error .. => default

theorem plan_ok : ∃ next, Stratum.plan .assign ∅ rules { store, next := 1 } =
    .ok planned.1 { store := planned.2, next } := by
  have ok : (match Stratum.plan .assign ∅ rules { store, next := 1 } with
    | .ok .. => true
    | .error .. => false) = true := by decide +kernel
  rw [planned]
  cases h : Stratum.plan .assign ∅ rules { store, next := 1 } with
  | ok stratum state => exact ⟨state.next, rfl⟩
  | error e state =>
    rw [h] at ok
    cases ok

/-- With at most one generation to a round. -/
def evaluation : Evaluation where
  context := {
    functions := ∅, settings := { maxGeneration := 1 }, stratum := planned.1, tracked := [] }
  world := { store := planned.2 }

theorem run_ok : ∃ e summary,
    Evaluation.run Policy.newest 10 evaluation = some (e, .ok summary) :=
  Evaluation.exists_ok (by cbv)

attribute [irreducible] planned

end Reach

end Datalog
