import Datalog.Meaning.Branches
import Datalog.Proofs.Evaluation.Conclude
import Datalog.Proofs.Evaluation.Position
import Datalog.Proofs.Filling

/-!
# Proofs/Evaluation/Alike — two workers side by side

One worker overwrites its bindings, and the other one holds those of its branch.  They **mirror**
each other if nothing but their bindings tells them apart, and two stretches of work are **alike**
if they end the same way and leave workers that mirror each other (`Work.Alike`).  Work that does
not look at the bindings is.
-/

namespace Datalog

/-! ## Faults that are not for want of a binding -/

/-- The cause is not a variable without a binding. -/
def Abort.Bound (e : Abort) : Prop := ∀ name, e.toFault.root ≠ .unboundVariable name

theorem Abort.bound_crash {message : String} : (Abort.crash message).Bound := fun _ => nofun

theorem Abort.Bound.within {e : Abort} {context : Fault → Fault}
    (root : ∀ f, (context f).root = f.root) (h : e.Bound) : (e.within context).Bound := by
  cases e with
  | fault f => exact fun name => (root f).symm ▸ h name
  | crash message => exact h

/-- Context does not change the cause. -/
theorem Head.root_blame (h : Head) (f : Fault) : (h.blame f).root = f.root := rfl

theorem Step.root_blame (s : Step) (f : Fault) : (s.blame f).root = f.root := rfl

/-- No native function reports a variable without a binding. -/
def Functions.Bound (fns : Functions) : Prop :=
  ∀ name fn, fns.get? name = some fn → ∀ args e, fn.run args = .error e → e.Bound

theorem Functions.Bound.call {fns : Functions} (h : fns.Bound) {name : String} {args : Tuple}
    {e : Abort} (he : fns.call name args = .error e) : e.Bound := by
  rcases Functions.call_error he with rfl | ⟨fn, hfn, ⟨_, rfl⟩ | ⟨_, he⟩⟩
  · exact nofun
  · exact nofun
  · exact h name fn hfn args e he

/-- **A term whose variables are bound** has a value, or some other fault. -/
theorem Term.bound_of_valueIn {env : Env} {fns : Functions} (bound : fns.Bound) {t : Term}
    {e : Abort} (defined : ∀ v ∈ t.occurrences, ∃ x, env v = some x)
    (he : t.valueIn env fns = .error e) : e.Bound := by
  rcases Term.valueIn_error he with ⟨v, hv, unbound, _⟩ | ⟨f, xs, _, he⟩
  · obtain ⟨x, hx⟩ := defined v hv
    cases unbound.symm.trans hx
  · exact bound.call he

theorem Term.bound_of_evaluate {b : Bindings} {fns : Functions} (bound : fns.Bound) {t : Term}
    {e : Abort} (defined : b.Defined t.occurrences) (he : t.evaluate b fns = .error e) : e.Bound := by
  rw [evaluate_eq_valueIn] at he
  exact bound_of_valueIn bound defined he

theorem Goal.bound_of_key {b : Bindings} {fns : Functions} (bound : fns.Bound) {g : Goal} {e : Abort}
    (defined : b.Defined (g.args.flatMap Arg.reads)) (he : g.key fns b = .error e) : e.Bound := by
  obtain ⟨arg, harg, he⟩ := Outcome.exists_of_mapM_error he
  cases arg with
  | bound t =>
    have he : some <$> t.evaluate b fns = .error e := he
    cases ht : t.evaluate b fns with
    | ok x =>
      rw [ht] at he
      cases he
    | error e' =>
      rw [ht] at he
      cases he
      exact Term.bound_of_evaluate bound
        (fun v hv => defined v (List.mem_flatMap.2 ⟨_, harg, hv⟩)) ht
  | free | ignored => cases he

/-! ## Two workers side by side -/

/-- **No tuple is shorter than its relation.** -/
structure Store.Long (s : Store) : Prop where
  filled : s.Filled
  length : ∀ r t, s.Holds r t → r.arity ≤ t.length

theorem Store.Long.add {s : Store} {r : Relation} {tuple : Tuple} (h : s.Long)
    (hlen : r.arity ≤ tuple.length) : Store.Long (s.add r tuple).1 := by
  refine ⟨h.filled.add, fun r' t ht => ?_⟩
  rcases Store.holds_add_iff.1 ht with ht | ⟨rfl, rfl⟩
  · exact h.length r' t ht
  · exact hlen

namespace Work

/-- **Tasks made by the same task** on either side: they start a clause, or go on with bindings
that agree on what the steps so far have bound. -/
inductive Twin (task : Task) : Task → Task → Prop
  | start {u : Task} (h : u.resumption = none) : Twin task u u
  | goOn {pre rest : List Slot} {slot : Slot} {goal : Goal} {tuples : List Tuple} {b b' : Bindings}
      (body : task.clause.body = pre ++ slot :: rest) (positive : slot.step.positiveGoal? = some goal)
      (agree : Bindings.Agree (before pre) b b')
      (defined : Bindings.Defined (before pre) b')
      (long : ∀ t ∈ tuples, goal.args.length ≤ t.length) :
      Twin task (suffix task goal rest b tuples) (suffix task goal rest b' tuples)

/-- **The workers mirror each other**, their bindings apart. -/
structure Mirrors (task : Task) (w w' : Worker) : Prop where
  world : w.world = w'.world
  batch : w.batch = w'.batch
  spawned : List.Forall₂ (Twin task) w.spawned w'.spawned

/-- **The results are alike**: the same value or the same fault, which is not for want of a binding,
and workers that mirror each other. -/
inductive Alike (task : Task) {α : Type} (R : α → Worker → Worker → Prop) :
    EStateM.Result Abort Worker α → EStateM.Result Abort Worker α → Prop
  | ok {a : α} {w w' : Worker} (mirrors : Mirrors task w w') (h : R a w w') :
      Alike task R (.ok a w) (.ok a w')
  | error {e : Abort} {w w' : Worker} (mirrors : Mirrors task w w') (bound : e.Bound) :
      Alike task R (.error e w) (.error e w')

/-- The store and the bindings have stayed what they were. -/
def Still (w w' : Worker) (v v' : Worker) : Prop :=
  v.world.store = w.world.store ∧ v.bindings = w.bindings ∧ v'.bindings = w'.bindings

variable {α β : Type} {cx : Context} {task : Task} {failed : Bool} {w w' : Worker}

theorem Still.trans {v v' u u' : Worker} (h : Still w w' v v') (h' : Still v v' u u') :
    Still w w' u u' :=
  ⟨h'.1.trans h.1, h'.2.1.trans h.2.1, h'.2.2.trans h.2.2⟩

namespace Alike

variable {R : α → Worker → Worker → Prop} {S : β → Worker → Worker → Prop}

theorem bind {x x' : Work α} {f f' : α → Work β} (hx : Alike task R (x w) (x' w'))
    (hf : ∀ a v v', Mirrors task v v' → R a v v' → Alike task S (f a v) (f' a v')) :
    Alike task S ((x >>= f) w) ((x' >>= f') w') := by
  change Alike task S (EStateM.bind x f w) (EStateM.bind x' f' w')
  unfold EStateM.bind
  generalize x w = result, x' w' = result' at hx ⊢
  cases hx with
  | ok mirrors h => exact hf _ _ _ mirrors h
  | error mirrors bound => exact .error mirrors bound

/-- Either side goes on from the worker it has. -/
theorem get_bind {f f' : Worker → Work β} (h : Alike task S (f w w) (f' w' w')) :
    Alike task S ((get >>= f) w) ((get >>= f') w') := h

theorem imp {T : α → Worker → Worker → Prop} {r r' : EStateM.Result Abort Worker α}
    (h : Alike task R r r') (hT : ∀ a v v', R a v v' → T a v v') : Alike task T r r' := by
  cases h with
  | ok mirrors h => exact .ok mirrors (hT _ _ _ h)
  | error mirrors bound => exact .error mirrors bound

theorem within {context : Fault → Fault} (root : ∀ f, (context f).root = f.root) {x x' : Work α}
    (h : Alike task R (x w) (x' w')) :
    Alike task R (within context x w) (within context x' w') := by
  rw [Work.within, Work.within]
  generalize x w = result, x' w' = result' at h ⊢
  cases h with
  | ok mirrors h => exact .ok mirrors h
  | error mirrors bound => exact .error mirrors (bound.within root)

/-- A result that needed no worker. -/
theorem ofExcept {result : Except Abort α} (mirrors : Mirrors task w w')
    (bound : ∀ e, result = .error e → e.Bound) :
    Alike task (fun a v v' => result = .ok a ∧ v = w ∧ v' = w') (ofExcept result w)
      (Work.ofExcept result w') := by
  cases result with
  | ok a => exact .ok mirrors ⟨rfl, rfl, rfl⟩
  | error e => exact .error mirrors (bound e rfl)

end Alike

/-! ## Work that does not look at the bindings -/

theorem count_alike {f : Summary → Summary} (mirrors : Mirrors task w w') :
    Alike task (fun _ => Still w w') (count f w) (count f w') :=
  .ok ⟨by simp only [mirrors.world], mirrors.batch, mirrors.spawned⟩ ⟨rfl, rfl, rfl⟩

theorem record_alike {clause : PlannedClause} (mirrors : Mirrors task w w') :
    Alike task (fun _ => Still w w') (record cx clause w) (record cx clause w') := by
  rw [record]
  split
  · exact .ok ⟨by simp only [mirrors.world], mirrors.batch, mirrors.spawned⟩ ⟨rfl, rfl, rfl⟩
  · exact .ok mirrors ⟨rfl, rfl, rfl⟩

theorem echo_alike {tuple : Tuple} (mirrors : Mirrors task w w') :
    Alike task (fun _ => Still w w') (echo cx task tuple w) (echo cx task tuple w') := by
  rw [echo]
  split
  · exact .ok ⟨by simp only [mirrors.world], mirrors.batch, mirrors.spawned⟩ ⟨rfl, rfl, rfl⟩
  · exact .ok mirrors ⟨rfl, rfl, rfl⟩

theorem forM_spawn_alike {f f' : β → Task} {bs : List β} (mirrors : Mirrors task w w')
    (twin : ∀ b ∈ bs, Twin task (f b) (f' b)) :
    Alike task (fun _ => Still w w') ((bs.forM fun b => spawn (f b)) w)
      ((bs.forM fun b => spawn (f' b)) w') := by
  induction bs generalizing w w' with
  | nil => exact .ok mirrors ⟨rfl, rfl, rfl⟩
  | cons b bs ih =>
    have first : Alike task (fun _ => Still w w') (spawn (f b) w) (spawn (f' b) w') :=
      .ok ⟨by simp only [mirrors.world], mirrors.batch,
        .cons (twin b (List.mem_cons_self ..)) mirrors.spawned⟩ ⟨rfl, rfl, rfl⟩
    refine first.bind fun _ v v' mirrors' still => ?_
    exact (ih mirrors' fun c hc => twin c (List.mem_cons_of_mem _ hc)).imp
      fun _ _ _ h => still.trans h

theorem setOff_alike (mirrors : Mirrors task w w') :
    Alike task (fun _ => Still w w') (setOff cx task failed w) (setOff cx task failed w') := by
  change Alike task _ ((if (w.batch.isEmpty || failed) = true then pure () else _ : Work Unit) w)
    ((if (w'.batch.isEmpty || failed) = true then pure () else _ : Work Unit) w')
  rw [mirrors.batch]
  split
  · exact .ok mirrors ⟨rfl, rfl, rfl⟩
  · have cleared : Alike task (fun _ => Still w w')
        ((modify fun w => { w with batch := [] } : Work Unit) w)
        ((modify fun w => { w with batch := [] } : Work Unit) w') :=
      .ok ⟨mirrors.world, rfl, mirrors.spawned⟩ ⟨rfl, rfl, rfl⟩
    refine cleared.bind fun _ v v' mirrors' still => ?_
    exact (forM_spawn_alike mirrors' fun c _ => .start (by rfl)).imp fun _ _ _ h => still.trans h

/-- What becomes of a new tuple does not depend on the bindings. -/
theorem keep_alike {tuple : Tuple} (mirrors : Mirrors task w w') :
    Alike task (fun _ => Still w w') (keep cx task failed tuple w)
      (keep cx task failed tuple w') := by
  rw [keep]
  dsimp only
  split
  · split
    · have batched : Alike task (fun _ => Still w w')
          ((modify fun w => { w with batch := w.batch ++ [tuple] } : Work Unit) w)
          ((modify fun w => { w with batch := w.batch ++ [tuple] } : Work Unit) w') :=
        .ok ⟨mirrors.world, by simp only [mirrors.batch], mirrors.spawned⟩ ⟨rfl, rfl, rfl⟩
      refine batched.bind fun _ v v' mirrors' still => ?_
      change Alike task _
        ((if cx.settings.eagerBatchSize ≤ v.batch.length then _ else pure () : Work Unit) v)
        ((if cx.settings.eagerBatchSize ≤ v'.batch.length then _ else pure () : Work Unit) v')
      rw [mirrors'.batch]
      split
      · exact (setOff_alike mirrors').imp fun _ _ _ h => still.trans h
      · exact .ok mirrors' still
    · exact .ok ⟨by simp only [mirrors.world], mirrors.batch, mirrors.spawned⟩ ⟨rfl, rfl, rfl⟩
  · exact .ok mirrors ⟨rfl, rfl, rfl⟩

/-- Storing a tuple does not depend on the bindings. -/
theorem store_alike {tuple : Tuple} (mirrors : Mirrors task w w') :
    Alike task (fun _ v v' => v.world.store = (w.world.store.add task.clause.head.relation tuple).1 ∧
        v.bindings = w.bindings ∧ v'.bindings = w'.bindings)
      (store task tuple w) (store task tuple w') := by
  rw [store]
  refine .get_bind ?_
  dsimp only
  rw [← mirrors.world]
  generalize w.world.store.add task.clause.head.relation tuple = added
  obtain ⟨stored, insertion⟩ := added
  have mirrors' : Mirrors task { w with world.store := stored } { w' with
      world := { w.world with store := stored } } := ⟨rfl, mirrors.batch, mirrors.spawned⟩
  cases insertion with
  | added | present => exact .ok mirrors' ⟨rfl, rfl, rfl⟩
  | misfit m => exact .error mirrors' Abort.bound_crash

end Work

end Datalog
