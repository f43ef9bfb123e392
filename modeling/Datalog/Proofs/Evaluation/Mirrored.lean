import Datalog.Proofs.Evaluation.Alike

/-!
# Proofs/Evaluation/Mirrored — the search with bindings of its own

A search that holds the bindings of its branch is alike one that overwrites them: their bindings
agree on what the steps on the way have bound, and a step reads nothing else (`Work.search_alike`).
Since all of that is bound, no variable is ever found without a binding.
-/

namespace Datalog

namespace Work

variable {α β : Type} {cx : Context} {task : Task} {failed : Bool} {w w' : Worker}

/-! ## Concluding -/

/-- **The head reads what the body has bound.** -/
theorem conclude_alike (orderly : task.clause.clause.Orderly) (careful : cx.functions.Bound)
    (mirrors : Mirrors task w w') (long : w.world.store.Long)
    (agree : Bindings.Agree (Step.written task.clause.clause.body) w.bindings w'.bindings)
    (defined : w'.bindings.Defined (Step.written task.clause.clause.body)) :
    Alike task (fun _ v _ => v.world.store.Long ∧ v.bindings = w.bindings)
      (conclude cx task failed w) (conclude cx task failed w') := by
  have reads {t : Term} (ht : t ∈ task.clause.head.args) :
      t.occurrences ⊆ Step.written task.clause.clause.body :=
    fun v hv => orderly.head (Term.mem_occurrencesOf.2 ⟨t, ht, hv⟩)
  have same : Tuple.evaluate w.bindings cx.functions task.clause.head.args =
      Tuple.evaluate w'.bindings cx.functions task.clause.head.args :=
    Outcome.mapM_congr fun t ht => Term.evaluate_congr fun v hv => agree v (reads ht hv)
  have bound (e : Abort)
      (he : Tuple.evaluate w'.bindings cx.functions task.clause.head.args = .error e) : e.Bound := by
    obtain ⟨t, ht, he⟩ := Outcome.exists_of_mapM_error he
    exact Term.bound_of_evaluate careful (fun v hv => defined v (reads ht hv)) he
  rw [conclude]
  refine .get_bind ?_
  rw [same]
  refine ((Alike.ofExcept mirrors bound).within (Head.root_blame _)).bind ?_
  rintro tuple _ _ mirrors ⟨hvalue, rfl, rfl⟩
  have hlen : task.clause.head.relation.arity ≤ tuple.length := by
    rw [Tuple.evaluate_eq_ok_iff, Term.values?_eq_some_iff] at hvalue
    exact Nat.le_of_eq (orderly.arity.symm.trans hvalue.length_eq)
  refine (store_alike mirrors).bind ?_
  rintro new v v' mirrors ⟨store, hb, hb'⟩
  have long' : v.world.store.Long := by
    rw [store]
    exact long.add hlen
  split
  · refine (count_alike mirrors).bind fun _ u u' mirrors still => ?_
    refine (echo_alike mirrors).bind fun _ x x' mirrors still' => ?_
    refine (keep_alike mirrors).imp fun _ y y' still'' => ?_
    have all := (still.trans still').trans still''
    exact ⟨all.1 ▸ long', all.2.1.trans hb⟩
  · split
    · refine (count_alike mirrors).imp fun _ u u' still => ?_
      exact ⟨still.1 ▸ long', still.2.1.trans hb⟩
    · exact .ok mirrors ⟨long', hb⟩

/-! ## Steps -/

namespace Alike

variable {S : β → Worker → Worker → Prop}

/-- One side takes up the bindings of its branch. -/
theorem hold_bind {x : Work β} {f' : Unit → Work β} {b : Bindings}
    (h : Alike task S (x w) (f' () { w' with bindings := b })) :
    Alike task S (x w) ((hold b >>= f') w') := h

/-- One side reads off the bindings of its branch. -/
theorem get_bind_right {x : Work β} {f' : Worker → Work β}
    (h : Alike task S (x w) (f' w' w')) : Alike task S (x w) ((get >>= f') w') := h

/-- **A loop over a list**, with an invariant. -/
theorem forM {I : Worker → Worker → Prop} {f f' : α → Work Unit} {as : List α}
    (each : ∀ a ∈ as, ∀ v v', Mirrors task v v' → I v v' →
      Alike task (fun _ => I) (f a v) (f' a v'))
    (mirrors : Mirrors task w w') (h : I w w') :
    Alike task (fun _ => I) (as.forM f w) (as.forM f' w') := by
  induction as generalizing w w' with
  | nil => exact .ok mirrors h
  | cons a as ih =>
    refine (each a (List.mem_cons_self ..) w w' mirrors h).bind fun _ v v' mirrors' h' => ?_
    exact ih (fun c hc => each c (List.mem_cons_of_mem _ hc)) mirrors' h'

end Alike

section

variable {known : List Var} {slot : Slot} {goal : Goal}

/-- **A lookup finds the same tuples on either side**, none of them too short. -/
theorem matching_alike (careful : cx.functions.Bound) (mirrors : Mirrors task w w')
    (long : w.world.store.Long) (reads : goal.args.flatMap Arg.reads ⊆ known)
    (arity : goal.args.length = goal.relation.arity)
    (seeded : ∀ tuples, task.seed = some tuples → goal.delta = true →
      ∀ t ∈ tuples, goal.args.length ≤ t.length)
    (agree : Bindings.Agree known w.bindings w'.bindings) (defined : w'.bindings.Defined known) :
    Alike task (fun tuples v v' => v = w ∧ v' = w' ∧ ∀ t ∈ tuples, goal.args.length ≤ t.length)
      (matching cx task slot goal w) (matching cx task slot goal w') := by
  have bound (e : Abort) (he : goal.key cx.functions w'.bindings = .error e) : e.Bound :=
    Goal.bound_of_key careful (fun v hv => defined v (reads hv)) he
  have stored {key : Key} : ∀ t ∈ cx.listing.lookup w.world.store goal.relation key slot.index,
      goal.args.length ≤ t.length := by
    intro t ht
    rw [arity]
    exact long.length _ t (long.filled.holds_of_lookup (Listing.mem_lookup.1 ht))
  rw [matching]
  refine .get_bind ?_
  rw [Goal.key_congr (agree.subset reads), ← mirrors.world]
  refine (Alike.ofExcept mirrors bound).bind ?_
  rintro key _ _ mirrors ⟨_, rfl, rfl⟩
  cases hd : goal.delta with
  | false => exact .ok mirrors ⟨rfl, rfl, stored⟩
  | true =>
    cases hs : task.seed with
    | none => exact .ok mirrors ⟨rfl, rfl, stored⟩
    | some seed =>
      exact .ok mirrors ⟨rfl, rfl, fun t ht => seeded seed hs hd t (List.mem_filter.1 ht).1⟩

/-- **Taking a tuple** binds the same variables on either side. -/
theorem take_alike {tuple : Tuple} (mirrors : Mirrors task w w') :
    Alike task (fun _ v v' => v.world.store = w.world.store ∧
        v.bindings = goal.bind tuple w.bindings ∧ v'.bindings = goal.bind tuple w'.bindings)
      (take cx goal tuple w) (take cx goal tuple w') := by
  rw [take]
  split
  · refine (count_alike mirrors).bind fun _ v v' mirrors' still => ?_
    refine .ok ⟨mirrors'.world, mirrors'.batch, mirrors'.spawned⟩ ⟨still.1, ?_, ?_⟩
    · exact congrArg (goal.bind tuple) still.2.1
    · exact congrArg (goal.bind tuple) still.2.2
  · exact .ok ⟨mirrors.world, mirrors.batch, mirrors.spawned⟩ ⟨rfl, rfl, rfl⟩

/-- **Sharing out** hands the bindings of either side on. -/
theorem shareOut_alike {pre rest : List Slot} {tuples : List Tuple}
    (body : task.clause.body = pre ++ slot :: rest) (positive : slot.step.positiveGoal? = some goal)
    (mirrors : Mirrors task w w') (long : ∀ t ∈ tuples, goal.args.length ≤ t.length)
    (agree : Bindings.Agree (before pre) w.bindings w'.bindings)
    (defined : w'.bindings.Defined (before pre)) :
    Alike task (fun first v v' => Still w w' v v' ∧ ∀ t ∈ first, goal.args.length ≤ t.length)
      (shareOut cx task slot goal rest tuples w) (shareOut cx task slot goal rest tuples w') := by
  have pieces := flatten_batches (batchSize cx slot) tuples
  rw [shareOut]
  cases hbatches : batches (batchSize cx slot) tuples with
  | nil => exact .ok mirrors ⟨⟨rfl, rfl, rfl⟩, fun t ht => absurd ht List.not_mem_nil⟩
  | cons first others =>
    rw [hbatches, List.flatten_cons] at pieces
    refine .get_bind ?_
    have shared : Alike task (fun _ => Still w w')
        ((others.forM fun ts => spawn (suffix task goal rest w.bindings ts)) w)
        ((others.forM fun ts => spawn (suffix task goal rest w'.bindings ts)) w') := by
      refine forM_spawn_alike mirrors fun ts hts => ?_
      refine .goOn body positive agree defined fun t ht => long t (pieces ▸ ?_)
      exact List.mem_append_right _ (List.mem_flatten.2 ⟨ts, hts, ht⟩)
    refine shared.bind fun _ v v' mirrors' still => .ok mirrors' ⟨still, fun t ht => ?_⟩
    exact long t (pieces ▸ List.mem_append_left _ ht)

/-- **What a step makes of two bindings** that agree on what is known: on either side it gives up,
or it fails for the same reason, or it keeps what is known and binds the same variables. -/
inductive Parallel (known writes : List Var) (b b' : Bindings) :
    Except Abort (Option Bindings) → Except Abort (Option Bindings) → Prop
  | on {c c' : Bindings} (kept : Bindings.Agree known c b) (kept' : Bindings.Agree known c' b')
      (agree : Bindings.Agree (known ++ writes) c c') (defined : c'.Defined (known ++ writes)) :
      Parallel known writes b b' (.ok (some c)) (.ok (some c'))
  | off : Parallel known writes b b' (.ok none) (.ok none)
  | error {e : Abort} (bound : e.Bound) : Parallel known writes b b' (.error e) (.error e)

namespace Parallel

variable {fns : Functions} {b b' : Bindings} {t : Term}

/-- What is put is the same on either side, and nothing known is overwritten. -/
theorem putAll {pairs : List (Var × Term)} (agree : Bindings.Agree known b b')
    (defined : b'.Defined known) (disjoint : List.Disjoint known (pairs.map Prod.fst))
    (nodup : (pairs.map Prod.fst).Nodup) : Parallel known (pairs.map Prod.fst) b b'
      (.ok (some (b.putAll pairs))) (.ok (some (b'.putAll pairs))) :=
  .on (Bindings.agree_putAll disjoint) (Bindings.agree_putAll disjoint) (agree.putAll pairs)
    (defined.putAll nodup)

/-- A step that binds nothing goes on with what there is. -/
theorem stay (agree : Bindings.Agree known b b') (defined : b'.Defined known) :
    Parallel known [] b b' (.ok (some b)) (.ok (some b')) :=
  .on (fun _ _ => rfl) (fun _ _ => rfl) (known.append_nil.symm ▸ agree)
    (known.append_nil.symm ▸ defined)

/-- A known term has the same value on either side, and fails for other reasons than for want of a
binding. -/
theorem evaluate (careful : fns.Bound) (agree : Bindings.Agree known b b')
    (defined : b'.Defined known) (reads : t.occurrences ⊆ known) :
    t.evaluate b fns = t.evaluate b' fns ∧ ∀ e, t.evaluate b' fns = .error e → e.Bound :=
  ⟨Term.evaluate_congr fun v hv => agree v (reads hv),
    fun _ he => Term.bound_of_evaluate careful (fun v hv => defined v (reads hv)) he⟩

theorem assign {v : Var} (careful : fns.Bound) (agree : Bindings.Agree known b b')
    (defined : b'.Defined known) (reads : t.occurrences ⊆ known) (new : List.Disjoint known [v]) :
    Parallel known [v] b b' (some <$> Step.performAssign fns v t b)
      (some <$> Step.performAssign fns v t b') := by
  obtain ⟨same, bound⟩ := evaluate careful agree defined reads
  rw [Step.performAssign, Step.performAssign, same]
  cases ht : t.evaluate b' fns with
  | error e => exact .error (bound e ht)
  | ok x => exact @putAll known b b' [(v, x)] agree defined new (List.nodup_singleton v)

theorem check {l r : Term} {negated : Bool} (careful : fns.Bound)
    (agree : Bindings.Agree known b b') (defined : b'.Defined known)
    (left : l.occurrences ⊆ known) (right : r.occurrences ⊆ known) :
    Parallel known [] b b'
      ((fun go => if go then some b else none) <$> Step.performCheck fns l r negated b)
      ((fun go => if go then some b' else none) <$> Step.performCheck fns l r negated b') := by
  obtain ⟨same, bound⟩ := evaluate careful agree defined left
  obtain ⟨same', bound'⟩ := evaluate careful agree defined right
  rw [Step.performCheck, Step.performCheck, same, same']
  cases hl : l.evaluate b' fns with
  | error e => exact .error (bound e hl)
  | ok x =>
    cases hr : r.evaluate b' fns with
    | error e => exact .error (bound' e hr)
    | ok y =>
      change Parallel known [] b b' (.ok (if decide (x = y) != negated then some b else none))
        (.ok (if decide (x = y) != negated then some b' else none))
      split
      · exact stay agree defined
      · exact .off

theorem destruct {f : String} {ys : List Var} (careful : fns.Bound)
    (agree : Bindings.Agree known b b') (defined : b'.Defined known)
    (reads : t.occurrences ⊆ known) (disjoint : List.Disjoint known ys) (nodup : ys.Nodup) :
    Parallel known ys b b' (Step.performDestruct fns t f ys b)
      (Step.performDestruct fns t f ys b') := by
  obtain ⟨same, bound⟩ := evaluate careful agree defined reads
  rw [Step.performDestruct, Step.performDestruct, same]
  cases ht : t.evaluate b' fns with
  | error e => exact .error (bound e ht)
  | ok x =>
    cases x with
    | ctor g xs =>
      change Parallel known ys b b'
        (if g = f ∧ xs.length = ys.length then .ok (some (b.putAll (ys.zip xs))) else .ok none)
        (if g = f ∧ xs.length = ys.length then .ok (some (b'.putAll (ys.zip xs))) else .ok none)
      split
      · next fits =>
        have names : (ys.zip xs).map Prod.fst = ys := List.map_fst_zip (Nat.le_of_eq fits.2.symm)
        have puts := putAll agree defined (names.symm ▸ disjoint) (names.symm ▸ nodup)
        rwa [names] at puts
      · exact .off
    | var | lit | call => exact .off

theorem lookup {store : Store} {g : Goal} {index : Option Nat} (careful : fns.Bound)
    (agree : Bindings.Agree known b b') (defined : b'.Defined known)
    (reads : g.args.flatMap Arg.reads ⊆ known) (negated : g.negated = true) :
    Parallel known (Step.lookup g).writes b b'
      ((⟨.lookup g, index, false⟩ : Slot).perform fns store b)
      ((⟨.lookup g, index, false⟩ : Slot).perform fns store b') := by
  rw [Step.writes, if_pos negated, Slot.perform, Slot.perform]
  dsimp only
  rw [Goal.key_congr (agree.subset reads)]
  cases hkey : g.key fns b' with
  | error e => exact .error (Goal.bound_of_key careful (fun v hv => defined v (reads hv)) hkey)
  | ok key =>
    dsimp only
    split
    · exact .off
    · exact stay agree defined

/-- **A step reads what is known and binds what it writes**, the same on either side. -/
theorem perform {store : Store} (careful : fns.Bound) (positive : slot.step.positiveGoal? = none)
    (reads : slot.step.reads ⊆ known) (disjoint : List.Disjoint known slot.step.writes)
    (nodup : slot.step.writes.Nodup) (agree : Bindings.Agree known b b')
    (defined : b'.Defined known) :
    Parallel known slot.step.writes b b' (slot.perform fns store b) (slot.perform fns store b') := by
  obtain ⟨step, index, split⟩ := slot
  cases step with
  | assign v t => exact assign careful agree defined reads disjoint
  | check l r negated =>
    exact check careful agree defined (fun v hv => reads (List.mem_append_left _ hv))
      fun v hv => reads (List.mem_append_right _ hv)
  | destruct t f ys => exact destruct careful agree defined reads disjoint nodup
  | lookup g => exact lookup careful agree defined reads (negated_of_not_positive positive rfl)

end Parallel

/-- **Performing a step** is alike, as far as it concerns what is known. -/
theorem perform_alike (careful : cx.functions.Bound) (mirrors : Mirrors task w w')
    (positive : slot.step.positiveGoal? = none) (reads : slot.step.reads ⊆ known)
    (disjoint : List.Disjoint known slot.step.writes) (nodup : slot.step.writes.Nodup)
    (agree : Bindings.Agree known w.bindings w'.bindings) (defined : w'.bindings.Defined known) :
    Alike task (fun go v v' => v.world.store = w.world.store ∧
        Bindings.Agree known v.bindings w.bindings ∧ Bindings.Agree known v'.bindings w'.bindings ∧
        (go = true → Bindings.Agree (known ++ slot.step.writes) v.bindings v'.bindings ∧
          v'.bindings.Defined (known ++ slot.step.writes)))
      (perform cx slot w) (perform cx slot w') := by
  have parallel := @Parallel.perform known slot cx.functions w.bindings w'.bindings w.world.store careful positive reads disjoint nodup
    agree defined
  have store : w'.world.store = w.world.store := by rw [mirrors.world]
  rw [perform_eq, perform_eq, store]
  generalize slot.perform cx.functions w.world.store w.bindings = r at parallel
  generalize slot.perform cx.functions w.world.store w'.bindings = r' at parallel
  cases parallel with
  | on kept kept' agree defined =>
    exact .ok ⟨mirrors.world, mirrors.batch, mirrors.spawned⟩
      ⟨rfl, kept, kept', fun _ => ⟨agree, defined⟩⟩
  | off =>
    exact .ok mirrors ⟨rfl, fun _ _ => rfl, fun _ _ => rfl, fun h => absurd h Bool.false_ne_true⟩
  | error bound => exact .error mirrors bound

end

/-! ## Searching -/

/-- **What the left worker keeps** while it searches on from a branch that has bound what is known
to `b`. -/
def Keeping (known : List Var) (b : Bindings) (w _w' : Worker) : Prop :=
  w.world.store.Long ∧ Bindings.Agree known w.bindings b

section

variable {slot : Slot} {goal : Goal} {pre rest slots : List Slot} {b : Bindings}

/-- The seed's tuples are long enough for the goals that read them. -/
def Seeded (task : Task) : Prop :=
  ∀ tuples, task.seed = some tuples → ∀ g, .lookup g ∈ task.clause.clause.body → g.delta = true →
    ∀ t ∈ tuples, g.relation.arity ≤ t.length

/-- **A tuple found** extends the bindings of the branch. -/
theorem bind_branch {tuple : Tuple} {c : Bindings} (orderly : task.clause.clause.Orderly)
    (body : task.clause.body = pre ++ slot :: rest)
    (positive : slot.step.positiveGoal? = some goal) (long : goal.args.length ≤ tuple.length)
    (agree : Bindings.Agree (before pre) c b) (defined : b.Defined (before pre)) :
    Bindings.Agree (before (pre ++ [slot])) (goal.bind tuple c) (goal.bind tuple b) ∧
      Bindings.Defined (before (pre ++ [slot])) (goal.bind tuple b) ∧
      Bindings.Agree (before pre) (goal.bind tuple b) b := by
  obtain ⟨_, _, nodup⟩ := orderly_at orderly body
  refine ⟨agree_bind positive long agree, ?_, agree_bind_self orderly body positive long b⟩
  rw [writes_of_positive positive long] at nodup
  rw [before_snoc, writes_of_positive positive long, Goal.bind_eq_putAll]
  exact defined.putAll nodup

/-- **What is looped over** for a goal, given the search of what comes after it. -/
theorem found_alike {x : Work Unit} {x' : Bindings → Work Unit} (orderly : task.clause.clause.Orderly)
    (body : task.clause.body = pre ++ slot :: rest)
    (positive : slot.step.positiveGoal? = some goal) {tuples : List Tuple}
    (long : ∀ t ∈ tuples, goal.args.length ≤ t.length) (defined : b.Defined (before pre))
    (search : ∀ c v v', Mirrors task v v' → v.world.store.Long →
      Bindings.Agree (before (pre ++ [slot])) v.bindings c →
      c.Defined (before (pre ++ [slot])) →
      Alike task (fun _ => Keeping (before (pre ++ [slot])) c) (x v) (x' c v'))
    (mirrors : Mirrors task w w') (keeping : Keeping (before pre) b w w') :
    Alike task (fun _ => Keeping (before pre) b)
      ((tuples.forM fun tuple => do
        take cx goal tuple
        x) w)
      ((tuples.forM fun tuple => do
        hold b
        take cx goal tuple
        x' (goal.bind tuple b)) w') := by
  refine .forM (fun tuple htuple v v' mirrors keeping => ?_) mirrors keeping
  refine .hold_bind ?_
  have mirrors' : Mirrors task v { v' with bindings := b } :=
    ⟨mirrors.world, mirrors.batch, mirrors.spawned⟩
  refine (take_alike mirrors').bind ?_
  rintro _ u u' mirrors ⟨store, hb, _⟩
  obtain ⟨agree, defined', rest⟩ :=
    bind_branch orderly body positive (long tuple htuple) keeping.2 defined
  refine (search _ u u' mirrors (store ▸ keeping.1) (hb ▸ agree) defined').imp ?_
  intro _ y y' h
  exact ⟨h.1, (h.2.subset before_subset_snoc).trans rest⟩

/-- **A search is the same** from bindings that agree on what is bound before. -/
theorem search_alike (orderly : task.clause.clause.Orderly) (careful : cx.functions.Bound)
    (seeded : Seeded task) (body : task.clause.body = pre ++ slots) (mirrors : Mirrors task w w')
    (long : w.world.store.Long) (agree : Bindings.Agree (before pre) w.bindings b)
    (defined : b.Defined (before pre)) :
    Alike task (fun _ => Keeping (before pre) b)
      (search cx task (conclude cx task failed) slots w)
      (searchOwn cx task (conclude cx task failed) slots b w') := by
  induction slots generalizing pre b w w' with
  | nil =>
    refine .hold_bind ?_
    have known := before_eq_written body
    rw [known] at agree defined
    have held : Mirrors task w { w' with bindings := b } :=
      ⟨mirrors.world, mirrors.batch, mirrors.spawned⟩
    refine (conclude_alike orderly careful held long agree defined).imp fun _ v v' h => ?_
    refine ⟨h.1, ?_⟩
    rw [h.2, known]
    exact agree
  | cons slot rest ih =>
    have held : Mirrors task w { w' with bindings := b } :=
      ⟨mirrors.world, mirrors.batch, mirrors.spawned⟩
    obtain ⟨reads, disjoint, nodup⟩ := orderly_at orderly body
    have body' := body_snoc body
    rw [Work.search, Work.searchOwn]
    cases hpositive : slot.step.positiveGoal? with
    | some goal =>
      obtain ⟨hstep, hn⟩ := step_of_positive hpositive
      have hmem : .lookup goal ∈ task.clause.clause.body := hstep ▸ step_mem body
      have arity := orderly.goals goal hmem
      rw [hstep] at reads
      refine .hold_bind ?_
      refine ((matching_alike careful held long reads arity (fun ts hs hd t ht => ?_) agree
        defined).within (Step.root_blame _)).bind ?_
      · exact arity ▸ seeded ts hs goal hmem hd t ht
      rintro tuples _ _ mirrors ⟨rfl, rfl, hlong⟩
      refine (shareOut_alike body hpositive mirrors hlong agree defined).bind ?_
      rintro first v v' mirrors ⟨still, hfirst⟩
      refine found_alike orderly body hpositive hfirst defined
        (fun c u u' mirrors long agree defined => ih body' mirrors long agree defined) mirrors ?_
      exact ⟨still.1 ▸ long, still.2.1 ▸ agree⟩
    | none =>
      refine .hold_bind ?_
      refine ((perform_alike careful held hpositive reads disjoint nodup agree
        defined).within (Step.root_blame _)).bind ?_
      rintro go v v' mirrors ⟨store, left, right, goes⟩
      have keeping : Keeping (before pre) b v v' := ⟨store ▸ long, left.trans agree⟩
      cases go with
      | false => exact .ok mirrors keeping
      | true =>
        obtain ⟨agree', defined'⟩ := goes rfl
        rw [← before_snoc] at agree' defined'
        refine .get_bind_right ?_
        refine (ih body' mirrors keeping.1 agree' defined').imp fun _ u u' h => ?_
        exact ⟨h.1, (h.2.subset before_subset_snoc).trans right⟩

/-- **A task ends the same way** on either side. -/
theorem settle_alike {R : Unit → Worker → Worker → Prop} {x x' : Work Unit}
    (h : Alike task R (x w) (x' w')) :
    Alike task (fun _ _ _ => True) (settle cx task failed x w) (settle cx task failed x' w') := by
  have finish {v v' : Worker} (mirrors : Mirrors task v v') :
      Alike task (fun _ _ _ => True)
        ((do setOff cx task failed; record cx task.clause : Work Unit) v)
        ((do setOff cx task failed; record cx task.clause : Work Unit) v') :=
    (setOff_alike mirrors).bind fun _ _ _ mirrors _ =>
      (record_alike mirrors).imp fun _ _ _ _ => trivial
  rw [settle, settle]
  generalize x w = result, x' w' = result' at h ⊢
  cases h with
  | ok mirrors _ => exact finish mirrors
  | @error e v v' mirrors bound =>
    cases e with
    | fault f => exact (finish mirrors).bind fun _ _ _ mirrors _ => .error mirrors bound
    | crash message => exact .error mirrors bound

theorem resume_alike {tuples : List Tuple} (orderly : task.clause.clause.Orderly)
    (careful : cx.functions.Bound) (seeded : Seeded task)
    (body : task.clause.body = pre ++ slot :: rest)
    (positive : slot.step.positiveGoal? = some goal)
    (hlong : ∀ t ∈ tuples, goal.args.length ≤ t.length) (mirrors : Mirrors task w w')
    (long : w.world.store.Long) (agree : Bindings.Agree (before pre) w.bindings b)
    (defined : b.Defined (before pre)) :
    Alike task (fun _ _ _ => True) (resume cx task failed goal rest tuples w)
      (resumeOwn cx task failed goal rest tuples b w') := by
  have body' := body_snoc body
  refine settle_alike (found_alike orderly body positive hlong defined
    (fun c u u' mirrors long agree defined => ?_) mirrors ⟨long, agree⟩)
  exact search_alike orderly careful seeded body' mirrors long agree defined

theorem approach_alike (orderly : task.clause.clause.Orderly) (careful : cx.functions.Bound)
    (seeded : Seeded task) (body : task.clause.body = pre ++ slots) (mirrors : Mirrors task w w')
    (long : w.world.store.Long) (agree : Bindings.Agree (before pre) w.bindings b)
    (defined : b.Defined (before pre)) :
    Alike task (fun _ _ _ => True) (approach cx task failed slots w)
      (approachOwn cx task failed slots b w') := by
  induction slots generalizing pre b w w' with
  | nil =>
    rw [approach, approachOwn]
    have known := before_eq_written body
    rw [known] at agree defined
    have held : Mirrors task w { w' with bindings := b } :=
      ⟨mirrors.world, mirrors.batch, mirrors.spawned⟩
    exact settle_alike (.hold_bind (conclude_alike orderly careful held long agree defined))
  | cons slot rest ih =>
    have held : Mirrors task w { w' with bindings := b } :=
      ⟨mirrors.world, mirrors.batch, mirrors.spawned⟩
    obtain ⟨reads, disjoint, nodup⟩ := orderly_at orderly body
    have body' := body_snoc body
    rw [approach, approachOwn]
    cases hpositive : slot.step.positiveGoal? with
    | some goal =>
      obtain ⟨hstep, hn⟩ := step_of_positive hpositive
      have hmem : .lookup goal ∈ task.clause.clause.body := hstep ▸ step_mem body
      have arity := orderly.goals goal hmem
      rw [hstep] at reads
      refine .hold_bind ?_
      refine ((matching_alike careful held long reads arity (fun ts hs hd t ht => ?_) agree
        defined).within (Step.root_blame _)).bind ?_
      · exact arity ▸ seeded ts hs goal hmem hd t ht
      rintro tuples _ _ mirrors ⟨rfl, rfl, hlong⟩
      refine (record_alike mirrors).bind fun _ u u' mirrors still => ?_
      have agree' : Bindings.Agree (before pre) u.bindings u'.bindings := by
        rw [still.2.1, still.2.2]
        exact agree
      have defined' : u'.bindings.Defined (before pre) := by
        rw [still.2.2]
        exact defined
      refine (shareOut_alike body hpositive mirrors hlong agree' defined').bind ?_
      rintro first v v' mirrors ⟨still', hfirst⟩
      have all := still.trans still'
      exact resume_alike orderly careful seeded body hpositive hfirst mirrors (all.1 ▸ long)
        (all.2.1 ▸ agree) defined
    | none =>
      refine .hold_bind ?_
      refine ((perform_alike careful held hpositive reads disjoint nodup agree
        defined).within (Step.root_blame _)).bind ?_
      rintro go v v' mirrors ⟨store, _, _, goes⟩
      cases go with
      | false => exact (record_alike mirrors).imp fun _ _ _ _ => trivial
      | true =>
        obtain ⟨agree', defined'⟩ := goes rfl
        rw [← before_snoc] at agree' defined'
        exact .get_bind_right (ih body' mirrors (store ▸ long) agree' defined')

end

end Work

end Datalog
