import Datalog.Meaning.Session
import Datalog.Proofs.Evaluation.Growth
import Datalog.Proofs.Evaluation.Run

/-!
# Proofs/Orders — every run has an order

A schedule may look at all there is, an order only at how many rounds have begun and how many tasks
have run in this one.  That is enough: since a run goes through one agenda after the other, what the
schedule picks on the way can be written down, round by round, and an order that picks the same runs
the same (`Database.exists_order`).  So what holds in every order holds under every schedule.
-/

namespace Datalog

variable {schedule : Schedule} {budget : Nat}

/-! ## What has an order -/

/-- **The work has an order**: under some order, and under any other that picks the same between the
rounds with which the work begins and ends, it does what it does under the schedule. -/
def Ordered {α : Type u} (schedule : Schedule) (begun : Nat) (ended : α → Nat)
    (work : Schedule → Option α) : Prop :=
  ∃ last, begun ≤ last ∧ (∀ a, work schedule = some a → ended a = last) ∧
    ∃ order : Order, ∀ order' : Order,
      (∀ round i, begun < round → round ≤ last → order' round i = order round i) →
        work order'.schedule = work schedule

namespace Ordered

variable {α β : Type u} {begun : Nat} {ended : α → Nat} {ended' : β → Nat}

theorem none : Ordered schedule begun ended fun _ => Option.none :=
  ⟨begun, Nat.le_refl _, nofun, fun _ _ => 0, fun _ _ => rfl⟩

theorem some {a : α} (h : ended a = begun) : Ordered schedule begun ended fun _ => Option.some a :=
  ⟨begun, Nat.le_refl _, by rintro _ ⟨⟩; exact h, fun _ _ => 0, fun _ _ => rfl⟩

/-- **One after the other**: the first order is followed up to where the first part ends. -/
theorem bind {work : Schedule → Option α} {next : α → Schedule → Option β}
    (first : Ordered schedule begun ended work)
    (later : ∀ a, work schedule = Option.some a →
      Ordered schedule (ended a) ended' (next a)) :
    Ordered schedule begun ended' fun s => work s >>= fun a => next a s := by
  obtain ⟨last, hle, hlast, order, follows⟩ := first
  cases hwork : work schedule with
  | none =>
    refine ⟨last, hle, fun b h => ?_, order, fun order' same => ?_⟩
    · dsimp only at h
      rw [hwork] at h
      cases h
    · dsimp only
      rw [follows order' same, hwork]
      rfl
  | some a =>
    obtain ⟨last', hle', hlast', order₂, follows'⟩ := later a hwork
    rw [hlast a hwork] at hle' follows'
    refine ⟨last', hle.trans hle', fun b h => ?_,
      fun round i => if round ≤ last then order round i else order₂ round i, fun order' same => ?_⟩
    · dsimp only at h
      rw [hwork] at h
      exact hlast' b h
    · have before : work order'.schedule = work schedule := follows order' fun round i hb hl =>
        (same round i hb (hl.trans hle')).trans (if_pos hl)
      have after : next a order'.schedule = next a schedule := follows' order' fun round i hb hl =>
        (same round i (hle.trans_lt hb) hl).trans (if_neg (Nat.not_le_of_lt hb))
      dsimp only
      rw [before, hwork]
      exact after

theorem congr {work work' : Schedule → Option α} (h : Ordered schedule begun ended work)
    (same : ∀ s, work' s = work s) : Ordered schedule begun ended work' :=
  (funext same : work' = work) ▸ h

end Ordered

/-! ## Agendas -/

namespace Agenda

variable {cx : Context} {a b : Agenda Task World}

/-- The round stays the same while its tasks run. -/
theorem rounds_runAt (i : Nat) :
    (a.runAt (Task.run cx) i).world.counters.rounds = a.world.counters.rounds := by
  rw [runAt]
  split
  · rfl
  · exact (Task.run_grows cx _ _ _).1.rounds

theorem finished_step (waits : ¬a.waiting.isEmpty = true) :
    (a.step (Task.run cx) schedule).finished.length = a.finished.length + 1 := by
  have hpos : 0 < a.waiting.length := List.length_pos_iff.2 (by simpa using waits)
  rw [step, runAt, List.getElem?_eq_getElem (Nat.mod_lt _ hpos)]
  rfl

/-- **What a schedule picks** while an agenda runs, by the number of tasks that have run. -/
theorem exists_picks (cx : Context) (schedule : Schedule) (budget : Nat) (a : Agenda Task World) :
    ∃ picks : Nat → Nat, ∀ order : Order,
      (∀ i, a.finished.length ≤ i → order a.world.counters.rounds i = picks i) →
        a.drain (Task.run cx) order.schedule budget = a.drain (Task.run cx) schedule budget := by
  induction budget generalizing a with
  | zero => exact ⟨fun _ => 0, fun order _ => by rw [drain, drain]⟩
  | succ budget ih =>
    obtain ⟨picks, later⟩ := ih (a.step (Task.run cx) schedule)
    refine ⟨fun i => if i = a.finished.length then schedule a else picks i, fun order same => ?_⟩
    have picked : order.schedule a = schedule a := (same _ (Nat.le_refl _)).trans (if_pos rfl)
    have first : a.step (Task.run cx) order.schedule = a.step (Task.run cx) schedule := by
      rw [step, step, picked]
    rw [drain, drain, first]
    split
    · rfl
    · next waits =>
      refine later order fun i hi => ?_
      rw [finished_step waits] at hi
      rw [step, rounds_runAt]
      exact (same i (by omega)).trans (if_neg (by omega))

end Agenda

/-! ## Evaluations -/

namespace Evaluation

variable {e : Evaluation}

/-- The rounds that have begun, when an evaluation has ended. -/
def begun {α : Type} (x : Evaluation × Except Fault α) : Nat := x.1.world.counters.rounds

theorem ordered_round (tasks : List Task) (e : Evaluation) :
    Ordered schedule e.world.counters.rounds begun fun s => round s budget tasks e := by
  obtain ⟨picks, follows⟩ := (e.agenda tasks).exists_picks e.context schedule budget
  refine ⟨e.world.counters.rounds + 1, Nat.le_succ _, ?_, fun _ => picks, fun order same => ?_⟩
  · rintro ⟨e', result⟩ ran
    obtain ⟨a, ha, _, rfl⟩ := exists_agenda ran
    exact (Agenda.drain_invariant
      (P := fun b => b.world.counters.rounds = e.world.counters.rounds + 1)
      (fun b i task _ hb => (Agenda.rounds_runAt i).trans hb) ha rfl).1
  · dsimp only
    rw [round_eq_map, round_eq_map,
      follows order fun i _ => same _ i (Nat.lt_succ_self _) (Nat.le_refl _)]

theorem ordered_rounds (limit number : Nat) (e : Evaluation) :
    Ordered schedule e.world.counters.rounds begun fun s => rounds s budget limit number e := by
  induction limit generalizing e number with
  | zero =>
    by_cases empty : seededTasks e.context e.world.delta = []
    · exact .congr (.some rfl) fun s => rounds_of_nil empty
    · refine .congr .none fun s => ?_
      rw [rounds]
      split
      · next h => exact (empty h).elim
      · rfl
  | succ limit ih =>
    by_cases empty : seededTasks e.context e.world.delta = []
    · exact .congr (.some rfl) fun s => rounds_of_nil empty
    · refine .congr (.bind (ordered_round (seededTasks e.context e.world.delta)
        { e with phase := .recursiveRound number }) ?_) fun s => rounds_of_ne_nil empty
      rintro ⟨e', fault | u⟩ _
      · exact .some rfl
      · exact ih (number + 1) e'

theorem ordered_run (e : Evaluation) :
    Ordered schedule e.world.counters.rounds begun fun s => run s budget e := by
  refine .bind (ordered_round (baseTasks e.context) { e with phase := .baseRound }) ?_
  rintro ⟨e₁, fault | u⟩ _
  · exact .some rfl
  · refine .bind (ordered_rounds budget 1 e₁) ?_
    rintro ⟨e₂, fault | u⟩ _
    · exact .some rfl
    · exact .some rfl

end Evaluation

/-! ## Databases -/

namespace Database

theorem ordered_runStrata (number : Nat) (strata : List Stratum) (db : Database) :
    Ordered schedule db.counters.rounds (fun x => x.1.counters.rounds)
      fun s => runStrata s budget number strata db := by
  induction strata generalizing number db with
  | nil => exact .some rfl
  | cons stratum rest ih =>
    refine .bind (db.evaluation stratum).ordered_run ?_
    rintro ⟨e, fault | summary⟩ _
    · exact .some rfl
    · exact ih (number + 1) (db.absorb e.world)

/-- **Every run has an order.** -/
theorem exists_order (schedule : Schedule) (budget : Nat) (db : Database) :
    ∃ order : Order, db.run order.schedule budget = db.run schedule budget := by
  have ordered : Ordered schedule _ _ fun s => runStrata s budget 0 db.strata db :=
    ordered_runStrata 0 db.strata db
  obtain ⟨_, _, _, order, follows⟩ := ordered
  refine ⟨order, ?_⟩
  have strata : runStrata order.schedule budget 0 db.strata db =
      runStrata schedule budget 0 db.strata db := follows order fun _ _ _ _ => rfl
  rw [run, run, strata]

end Database

end Datalog
