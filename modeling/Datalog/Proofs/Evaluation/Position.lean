import Datalog.Proofs.Compile.Body
import Datalog.Stratum.Basic

/-!
# Proofs/Evaluation/Position — where a search stands in a body

A search stands between the slots it has passed and those to come.  What it has bound by then
(`Work.before`) is what the slots to come may read, and none of it is bound again.
-/

namespace Datalog

namespace Work

variable {c : PlannedClause} {pre rest slots : List Slot} {slot : Slot} {goal : Goal}
  {b b' : Bindings} {tuple : Tuple}

/-- The variables bound before a position. -/
def before (pre : List Slot) : List Var := Step.written (pre.map Slot.step)

theorem before_snoc (pre : List Slot) (slot : Slot) :
    before (pre ++ [slot]) = before pre ++ slot.step.writes := by
  rw [before, List.map_append, Step.written_append, List.map_cons, List.map_nil,
    Step.written_cons, Step.written_nil, List.append_nil]
  rfl

theorem before_subset_snoc : before pre ⊆ before (pre ++ [slot]) := by
  rw [before_snoc]
  exact List.subset_append_left ..

/-- The next position. -/
theorem body_snoc (body : c.body = pre ++ slot :: rest) : c.body = (pre ++ [slot]) ++ rest := by
  rw [List.append_assoc]
  exact body

/-- At the end of the body all of it is bound. -/
theorem before_eq_written (body : c.body = pre ++ []) : before pre = Step.written c.clause.body := by
  rw [PlannedClause.clause, body, List.append_nil]
  rfl

/-- **The rest of a body in order** reads what is bound before. -/
theorem inOrder_rest (orderly : c.clause.Orderly) (body : c.body = pre ++ slots) :
    Step.InOrder (before pre) (slots.map Slot.step) := by
  have order := orderly.inOrder
  rw [PlannedClause.clause, body, List.map_append, Step.inOrder_append, List.nil_append] at order
  exact order.2

/-- **At each position** the step reads what is bound before and binds what is not. -/
theorem orderly_at (orderly : c.clause.Orderly) (body : c.body = pre ++ slot :: rest) :
    slot.step.reads ⊆ before pre ∧ List.Disjoint (before pre) slot.step.writes ∧
      slot.step.writes.Nodup := by
  obtain ⟨reads, disjoint, nodup, _⟩ := inOrder_rest orderly body
  exact ⟨reads, disjoint, nodup⟩

theorem head_reads (orderly : c.clause.Orderly) (body : c.body = pre ++ slots) :
    Term.occurrencesOf c.head.args ⊆ before pre ++ Step.written (slots.map Slot.step) := by
  have reads := orderly.head
  rwa [PlannedClause.clause, body, List.map_append, Step.written_append] at reads

theorem step_mem (body : c.body = pre ++ slot :: rest) : slot.step ∈ c.clause.body := by
  rw [PlannedClause.clause, body]
  exact List.mem_map_of_mem (List.mem_append_right _ (List.mem_cons_self ..))

/-- A positive goal is looked up. -/
theorem step_of_positive (positive : slot.step.positiveGoal? = some goal) :
    slot.step = .lookup goal ∧ goal.negated = false := by
  cases hstep : slot.step with
  | assign | check | destruct =>
    rw [hstep] at positive
    cases positive
  | lookup g =>
    rw [hstep, Step.positiveGoal?] at positive
    split at positive
    · cases positive
    · next hn =>
      cases positive
      exact ⟨rfl, by simpa using hn⟩

/-- Any other goal is negated. -/
theorem negated_of_not_positive {g : Goal} (positive : slot.step.positiveGoal? = none)
    (h : slot.step = .lookup g) : g.negated = true := by
  rw [h, Step.positiveGoal?] at positive
  split at positive
  · assumption
  · cases positive

/-- A tuple that is long enough binds what the step writes. -/
theorem writes_of_positive (positive : slot.step.positiveGoal? = some goal)
    (long : goal.args.length ≤ tuple.length) :
    slot.step.writes = (goal.bindingsOf tuple).map Prod.fst := by
  obtain ⟨hstep, hn⟩ := step_of_positive positive
  rw [hstep, Step.writes, hn, if_neg Bool.false_ne_true, Goal.map_fst_bindingsOf long]

/-- **A tuple found** makes bindings that agree into bindings that agree. -/
theorem agree_bind (positive : slot.step.positiveGoal? = some goal)
    (long : goal.args.length ≤ tuple.length) (agree : Bindings.Agree (before pre) b b') :
    Bindings.Agree (before (pre ++ [slot])) (goal.bind tuple b) (goal.bind tuple b') := by
  rw [before_snoc, writes_of_positive positive long, Goal.bind_eq_putAll, Goal.bind_eq_putAll]
  exact agree.putAll _

/-- It leaves what is bound before as it is. -/
theorem agree_bind_self (orderly : c.clause.Orderly) (body : c.body = pre ++ slot :: rest)
    (positive : slot.step.positiveGoal? = some goal) (long : goal.args.length ≤ tuple.length)
    (b : Bindings) : Bindings.Agree (before pre) (goal.bind tuple b) b := by
  obtain ⟨_, disjoint, _⟩ := orderly_at orderly body
  rw [writes_of_positive positive long] at disjoint
  rw [Goal.bind_eq_putAll]
  exact Bindings.agree_putAll disjoint

end Work

end Datalog
