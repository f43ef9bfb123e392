import Datalog.Proofs.Compile.Meaning

/-!
# Proofs/Compile/Orderly — the form of a clause

A clause is **canonical** if, read from left to right, it uses a variable only after the one place
that binds it, and a variable it ignores is mentioned nowhere else.  An orderly clause has this form
if no variable is ignored twice, or ignored and bound (`Clause.Orderly.canonical_of_once`).
-/

namespace Datalog

/-! ## Canonical clauses -/

/-- The variable of an ignored argument. -/
def Arg.ignores : Arg → List Var
  | ignored v => [v]
  | _ => []

namespace Step

/-- The variables that a step passes over. -/
def ignores : Step → List Var
  | lookup g => g.args.flatMap Arg.ignores
  | _ => []

/-- The variables that a step mentions for the first time. -/
def introduces (step : Step) : List Var := step.writes ++ step.ignores

/-- The variables of a step, one entry per occurrence. -/
def occurrences : Step → List Var
  | assign v t => v :: t.occurrences
  | check l r _ => l.occurrences ++ r.occurrences
  | destruct t _ ys => t.occurrences ++ ys
  | lookup g => g.terms.flatMap Term.occurrences

end Step

/-- A negated goal has no free arguments. -/
def Goal.IsTest (g : Goal) : Prop := g.negated = true → ∀ arg ∈ g.args, arg.isFree = false

/-- The variables of the head and then of the body, one entry per occurrence. -/
def Clause.occurrences (c : Clause) : List Var :=
  Term.occurrencesOf c.head.args ++ c.body.flatMap Step.occurrences

/-- **Canonical form**, read from left to right. -/
structure Clause.Canonical (c : Clause) : Prop where
  /-- A step reads what the steps before it bind. -/
  reads : ∀ {pre step post}, c.body = pre ++ step :: post → step.reads ⊆ Step.written pre
  /-- The head reads what the body binds. -/
  head : Term.occurrencesOf c.head.args ⊆ Step.written c.body
  /-- No step before it mentions what a step binds. -/
  fresh : ∀ {pre step post}, c.body = pre ++ step :: post →
    List.Disjoint (pre.flatMap Step.occurrences) step.writes
  /-- Each variable is bound in one place. -/
  once : (Step.written c.body).Nodup
  /-- An ignored variable is mentioned nowhere else. -/
  ignored : ∀ v ∈ c.body.flatMap Step.ignores, c.occurrences.count v = 1
  /-- A negated goal binds nothing. -/
  tests : ∀ g, .lookup g ∈ c.body → g.IsTest
  goals : ∀ g, .lookup g ∈ c.body → g.args.length = g.relation.arity
  arity : c.head.args.length = c.head.relation.arity

namespace Step

theorem InOrder.reads {known : List Var} {ss ss' : List Step} {step : Step}
    (h : InOrder known (ss ++ step :: ss')) : step.reads ⊆ known ++ written ss :=
  (inOrder_append.1 h).2.1

theorem InOrder.reads_subset {known : List Var} {ss : List Step} (h : InOrder known ss) :
    ss.flatMap Step.reads ⊆ known ++ written ss := by
  intro v hv
  obtain ⟨step, hstep, hread⟩ := List.mem_flatMap.1 hv
  obtain ⟨pre, post, rfl⟩ := List.append_of_mem hstep
  rw [written_append, ← List.append_assoc]
  exact List.mem_append_left _ (h.reads hread)

/-- **Each variable is bound in one place.** -/
theorem InOrder.nodup {known : List Var} {ss : List Step} (h : InOrder known ss) :
    (written ss).Nodup := by
  induction ss generalizing known with
  | nil => exact List.nodup_nil
  | cons step ss ih =>
    rw [written_cons]
    refine h.2.2.1.append (ih h.2.2.2) ?_
    exact List.disjoint_of_disjoint_append_left_right h.2.2.2.disjoint

/-- An occurrence is read, bound or ignored, if negated goals bind nothing. -/
theorem count_occurrences {step : Step} (h : ∀ g, step = .lookup g → g.IsTest) (v : Var) :
    step.occurrences.count v = step.reads.count v + step.introduces.count v := by
  cases step with
  | assign w t => simp [occurrences, Step.reads, introduces, writes, ignores, List.count_cons]
  | check l r negated => simp [occurrences, Step.reads, introduces, writes, ignores]
  | destruct t f ys => simp [occurrences, Step.reads, introduces, writes, ignores]
  | lookup g =>
    have all : ∀ args : List Arg, ((args.map Arg.term).flatMap Term.occurrences).count v =
        (args.flatMap Arg.reads).count v + (args.flatMap Arg.writes).count v +
          (args.flatMap Arg.ignores).count v := by
      intro args
      induction args with
      | nil => rfl
      | cons arg args ih =>
        rw [List.map_cons]
        simp only [List.flatMap_cons, List.count_append, ih]
        cases arg <;> simp [Arg.term, Arg.reads, Arg.writes, Arg.ignores, Term.occurrences] <;> omega
    have writes : Step.writes (.lookup g) = g.args.flatMap Arg.writes := by
      rw [Step.writes]
      split
      · next negated =>
        refine (List.flatMap_eq_nil_iff.2 fun arg harg => ?_).symm
        have := h g rfl negated arg harg
        cases arg <;> simp_all [Arg.writes, Arg.isFree]
      · rfl
    rw [occurrences, Goal.terms, all, introduces, writes, List.count_append, Step.reads, ignores,
      Nat.add_assoc]

end Step

section

variable {ss : List Step}

theorem Step.count_introduces (v : Var) (ss : List Step) :
    (ss.flatMap introduces).count v = (written ss).count v + (ss.flatMap ignores).count v := by
  induction ss with
  | nil => rfl
  | cons step ss ih =>
    rw [written_cons, List.flatMap_cons, List.flatMap_cons, introduces]
    simp only [List.count_append, ih]
    omega

theorem Step.count_flatMap_occurrences (h : ∀ g, .lookup g ∈ ss → g.IsTest) (v : Var) :
    (ss.flatMap occurrences).count v =
      (ss.flatMap Step.reads).count v + (ss.flatMap introduces).count v := by
  induction ss with
  | nil => rfl
  | cons step ss ih =>
    have first := count_occurrences (fun g hg => h g (hg ▸ List.mem_cons_self ..)) v
    have rest := ih fun g hg => h g (List.mem_cons_of_mem _ hg)
    simp only [List.flatMap_cons, List.count_append, first, rest]
    omega

/-- Whatever steps mention they read, bind or ignore. -/
theorem Step.mem_occurrences (h : ∀ g, .lookup g ∈ ss → g.IsTest) {v : Var}
    (hv : v ∈ ss.flatMap occurrences) :
    v ∈ ss.flatMap Step.reads ∨ v ∈ written ss ∨ v ∈ ss.flatMap ignores := by
  have := List.count_pos_iff.2 hv
  have := count_flatMap_occurrences h v
  have := count_introduces v ss
  simp only [← List.count_pos_iff]
  omega

/-- What is ignored, and introduced once, is not bound. -/
theorem Step.notMem_written {v : Var} (once : (ss.flatMap introduces).count v ≤ 1)
    (hv : v ∈ ss.flatMap ignores) : v ∉ written ss := by
  intro hw
  have := count_introduces v ss
  have := List.count_pos_iff.2 hv
  have := List.count_pos_iff.2 hw
  omega

/-- **What a step binds is not mentioned before it**, unless it is ignored there. -/
theorem Step.InOrder.disjoint_occurrences {step : Step} {post : List Step}
    (order : InOrder [] (ss ++ step :: post)) (tests : ∀ g, .lookup g ∈ ss → g.IsTest)
    (unignored : List.Disjoint (ss.flatMap ignores) step.writes) :
    List.Disjoint (ss.flatMap occurrences) step.writes := by
  intro v hpre hv
  have unwritten : v ∉ written ss := fun hw => (inOrder_append.1 order).2.2.1 hw hv
  rcases mem_occurrences tests hpre with hr | hw | hi
  · exact unwritten ((inOrder_append.1 order).1.reads_subset hr)
  · exact unwritten hw
  · exact unignored hi hv

end

namespace Clause.Orderly

variable {c : Clause}

/-- **What a clause ignores** it mentions once, if it introduces it once. -/
theorem count_ignored (orderly : c.Orderly) (tests : ∀ g, .lookup g ∈ c.body → g.IsTest) {v : Var}
    (once : (c.body.flatMap Step.introduces).count v ≤ 1) (hv : v ∈ c.body.flatMap Step.ignores) :
    c.occurrences.count v = 1 := by
  have hw := Step.notMem_written once hv
  have head : (Term.occurrencesOf c.head.args).count v = 0 :=
    List.count_eq_zero.2 fun h => hw (orderly.head h)
  have reads : (c.body.flatMap Step.reads).count v = 0 :=
    List.count_eq_zero.2 fun h => hw (orderly.inOrder.reads_subset h)
  have body := Step.count_flatMap_occurrences tests v
  have := Step.count_introduces v c.body
  have := List.count_pos_iff.2 hv
  rw [Clause.occurrences, List.count_append, head, body, reads]
  omega

/-- **A clause in order is canonical** if its negated goals are tests and it introduces once what it
ignores. -/
theorem canonical_of_once (orderly : c.Orderly) (tests : ∀ g, .lookup g ∈ c.body → g.IsTest)
    (once : ∀ v ∈ c.body.flatMap Step.ignores, (c.body.flatMap Step.introduces).count v ≤ 1) :
    c.Canonical where
  reads h := (h ▸ orderly.inOrder).reads
  head := orderly.head
  fresh {pre step post} h := by
    refine (h ▸ orderly.inOrder).disjoint_occurrences
      (fun g hg => tests g (h ▸ List.mem_append_left _ hg)) fun v hi hw => ?_
    have ignored : v ∈ c.body.flatMap Step.ignores := by
      rw [h, List.flatMap_append]
      exact List.mem_append_left _ hi
    refine Step.notMem_written (once v ignored) ignored ?_
    rw [h, Step.written_append, Step.written_cons]
    exact List.mem_append_right _ (List.mem_append_left _ hw)
  once := orderly.inOrder.nodup
  ignored v hv := orderly.count_ignored tests (once v hv) hv
  tests := tests
  goals := orderly.goals
  arity := orderly.arity

end Clause.Orderly

end Datalog
