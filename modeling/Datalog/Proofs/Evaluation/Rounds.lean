import Datalog.Proofs.Evaluation.Growth
import Datalog.Proofs.Evaluation.Reports
import Datalog.Proofs.Evaluation.Seeds
import Datalog.Proofs.Evaluation.Visits

/-!
# Proofs/Evaluation/Rounds — what the rounds after the base round are for

Whatever waits for the next round has come to the store in this one (`World.Since`).  A further
round is only run for such tuples, so each of them is paid for by a fact that was not there when the
round before it began (`Evaluation.InRound.exists_new`).
-/

namespace Datalog

/-- **A world since the start of a round**: the store has grown, and what waits in the delta has
come to it since. -/
structure World.Since (start : Store) (world : World) : Prop where
  within : start.Holds.Within world.store.Holds
  delta : ∀ r, ∀ t ∈ (world.delta.get? r).getD [], world.store.Holds r t ∧ ¬start.Holds r t

/-- **One more task.** -/
theorem World.Since.grows {start : Store} {world after : World} {head : Head}
    (h : world.Since start) (grows : world.Grows head after) : after.Since start where
  within r t ht := grows.within r t (h.within r t ht)
  delta r t ht := by
    rcases grows.delta r t ht with ht | ⟨now, new⟩
    · exact (h.delta r t ht).imp_left (grows.within r t)
    · exact ⟨now, fun old => new (h.within r t old)⟩

namespace Evaluation

variable {e : Evaluation} {a b : Agenda Task World} {n : Nat} {start : Store}

/-- **What starts a further round**: clauses, on tuples of a relation that sets them off. -/
theorem exists_seed {cx : Context} {delta : Assoc Relation (List Tuple)} {t : Task}
    (ht : t ∈ seededTasks cx delta) : ∃ r tuples, t.seed = some tuples ∧ tuples ≠ [] ∧
      t.clause ∈ cx.stratum.firedBy r ∧ ∀ x ∈ tuples, x ∈ (delta.get? r).getD [] := by
  rw [seededTasks_eq] at ht
  obtain ⟨s, hs, ht⟩ := List.mem_flatMap.1 ht
  obtain ⟨c, hc, rfl⟩ := List.mem_map.1 ht
  refine ⟨s.relation, s.tuples, rfl, ?_, hc, fun x hx => mem_of_drained hs hx⟩
  obtain ⟨entry, _, hs⟩ := List.mem_flatMap.1 hs
  cases hdelta : cx.listing.waited entry.1 ((delta.get? entry.1).getD []) with
  | nil =>
    rw [hdelta] at hs
    cases hs
  | cons x xs =>
    rw [hdelta] at hs
    obtain rfl := List.mem_singleton.1 hs
    exact List.cons_ne_nil x xs

/-- Where there is a further round to run, some tuple has waited for it. -/
theorem exists_waiting {cx : Context} {delta : Assoc Relation (List Tuple)}
    (more : seededTasks cx delta ≠ []) : ∃ r x, x ∈ (delta.get? r).getD [] := by
  obtain ⟨t, ht⟩ := List.exists_mem_of_ne_nil _ more
  obtain ⟨r, tuples, _, nonempty, _, waited⟩ := exists_seed ht
  obtain ⟨x, hx⟩ := List.exists_mem_of_ne_nil _ nonempty
  exact ⟨r, x, waited x hx⟩

namespace InRound

/-- **All that waits in a round is new** since its start. -/
theorem since (h : e.InRound n start a) : a.world.Since start := by
  have step (failed : Bool) (task : Task) (world : World) (since : world.Since start) :
      (task.run e.context failed world).world.Since start :=
    since.grows (Task.run_grows _ failed _ _).1
  cases h with
  | base reaches => exact reaches.keeps step ⟨.refl _, nofun⟩
  | next _ _ _ _ reaches => exact reaches.keeps step ⟨.refl _, nofun⟩

/-- Nothing that was stored at first is lost. -/
theorem within (h : e.InRound n start a) : e.world.store.Holds.Within a.world.store.Holds := by
  induction h with
  | base reaches => exact (InRound.base reaches).since.within
  | next h waiting fine more reaches ih =>
    exact ih.trans (h.next waiting fine more reaches).since.within

/-- **The rounds are counted.** -/
theorem rounds_eq (h : e.InRound n start a) :
    a.world.counters.rounds = e.world.counters.rounds + n := by
  have keeps {a b : Agenda Task World} {k : Nat} (reaches : a.Reaches (Task.run e.context) b)
      (ha : a.world.counters.rounds = k) : b.world.counters.rounds = k :=
    reaches.keeps (W := fun world => world.counters.rounds = k)
      (fun failed task world h => (Task.run_grows _ failed _ _).1.rounds.trans h) ha
  induction h with
  | base reaches => exact keeps reaches rfl
  | @next n start a b _ _ _ _ reaches ih =>
    exact keeps reaches ((congrArg (· + 1) ih).trans (Nat.add_assoc ..))

/-- **What a round stores is reported.** -/
theorem exists_receives (h : e.InRound n start a) :
    ∃ reports, start.Receives reports a.world.store := by
  have step (failed : Bool) (task : Task) (world : World) :
      (∃ reports, start.Receives reports world.store) →
        ∃ reports, start.Receives reports (task.run e.context failed world).world.store :=
    fun ⟨_, received⟩ => ⟨_, received.append (Task.run_booked failed).store⟩
  cases h with
  | base reaches => exact reaches.keeps (W := fun world => ∃ reports, _) step ⟨[], .nil⟩
  | next _ _ _ _ reaches => exact reaches.keeps (W := fun world => ∃ reports, _) step ⟨[], .nil⟩

/-- **Every further round is paid for** by a fact that is reported as stored before it starts. -/
theorem exists_reports (h : e.InRound n start a) : ∃ reports,
    e.world.store.Receives reports start ∧ n ≤ (Report.stored reports).length + 1 := by
  induction h with
  | base => exact ⟨[], .nil, Nat.le_refl _⟩
  | @next n start a b inRound _ _ more _ ih =>
    obtain ⟨reports, before, paid⟩ := ih
    obtain ⟨news, received⟩ := inRound.exists_receives
    refine ⟨reports ++ news, before.append received, ?_⟩
    obtain ⟨r, x, waits⟩ := exists_waiting more
    have fresh : (r, x) ∈ Report.stored news :=
      (received.stored_once.2 (r, x)).2 (inRound.since.delta r x waits)
    have := List.length_pos_of_mem fresh
    rw [Report.stored_append, List.length_append]
    omega

/-- **There are no more rounds than new facts**, the base round apart: the facts that are stored when
a round starts and were not at first are one fewer than the rounds, or more. -/
theorem exists_new (h : e.InRound n start a) : ∃ new : List (Relation × Tuple), new.Nodup ∧
    (∀ f, f ∈ new ↔ start.Holds f.1 f.2 ∧ ¬e.world.store.Holds f.1 f.2) ∧ n ≤ new.length + 1 := by
  obtain ⟨reports, received, paid⟩ := h.exists_reports
  obtain ⟨nodup, once⟩ := received.stored_once
  exact ⟨_, nodup, once, paid⟩

/-- **A seed of the next round** consists of tuples that are stored now and were not when this round
began. -/
theorem exists_fresh_seed (h : e.InRound n start a) {t : Task}
    (ht : t ∈ seededTasks e.context a.world.delta) : ∃ r tuples, t.seed = some tuples ∧
      tuples ≠ [] ∧ t.clause ∈ e.context.stratum.firedBy r ∧
      ∀ x ∈ tuples, a.world.store.Holds r x ∧ ¬start.Holds r x := by
  obtain ⟨r, tuples, seed, nonempty, fired, waited⟩ := exists_seed ht
  exact ⟨r, tuples, seed, nonempty, fired, fun x hx => h.since.delta r x (waited x hx)⟩

end InRound

end Evaluation

end Datalog
