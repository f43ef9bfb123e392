import Datalog.Proofs.Evaluation.Ledger

/-!
# Proofs/Evaluation/Line — what a task and those that go on from it report

Every stretch of a task's work yields what it is worth, the sizes of the batches whatever they may
be: concluding and searching (`Work.exists_yields_search`), and so the task as a whole, whether it
starts at the first step (`Work.exists_yields_approach`) or goes on (`Work.exists_yields_resume`).
-/

namespace Datalog

namespace Work

variable {α β : Type} {cx : Context} {start : Store} {task : Task} {failed : Bool}
  {w w' w'' : Worker} {pre rest slots : List Slot} {slot : Slot} {goal : Goal}
  {tuples : List Tuple} {b held : Bindings}

/-! ## Concluding -/

/-- **A complete match** is reported, and stored if need be. -/
theorem exists_yields_conclude (failed : Bool) {known : List Var}
    (orderly : task.clause.clause.Orderly) (serves : start.Serves task w.world.store)
    (within : b.Within w.bindings) (good : task.Good cx start b) :
    ∃ w', Yields cx start task known (conclude cx task failed) (concludeReports cx task)
      (task.found cx b) w w' := by
  obtain ⟨tuple, value, spares⟩ := good
  have fits := serves.fits spares (orderly.length_eq value)
  have value' := within.tuple value
  cases hconclude : conclude cx task failed w with
  | error e w' =>
    obtain ⟨_, e', value'', _⟩ | ⟨tuple', m, value'', misfit, _⟩ := conclude_error hconclude
    · cases value'.symm.trans value''
    · obtain rfl := Except.ok.inj (value'.symm.trans value'')
      exact (fits m misfit).elim
  | ok u w' =>
    have work : w'.world.counters.work = w.world.counters.work := by
      rw [conclude_eq, value'] at hconclude
      exact Counted.enter w u w' rfl hconclude
    have passes : Passes cx start task w w' := by
      obtain ⟨tuple', value'', held⟩ := conclude_ok hconclude
      obtain rfl := Except.ok.inj (value'.symm.trans value'')
      obtain ⟨_, idles⟩ | ⟨_, _, w₁, kept, idles⟩ := held
      · exact .of_idles idles work
      · have stores : Passes cx start task w (entered task tuple w) :=
          ⟨fun serves => serves.add spares, rfl, .of_eq rfl rfl⟩
        have same : w₁.world.counters.work = w.world.counters.work := by
          cases kept <;> rfl
        exact (stores.trans (.kept kept)).trans (.of_idles idles (work.trans same.symm))
    refine ⟨w', hconclude, passes.serves serves, fun v _ => by rw [passes.bindings], ?_⟩
    -- the report shows the match, and nothing else is owed or counted
    intro owed hw
    obtain ⟨ms, owed', _ | _, hw', balance⟩ := passes.pays owed hw
    refine ⟨[(b, tuple)], owed', ?_, hw', ?_⟩
    · rw [concludeReports, value']
      exact .cons ⟨within, rfl⟩ .nil
    · rw [Task.found, value]
      rw [zero_add] at balance
      rw [← balance]
      exact congrArg _ (zero_add owed').symm

/-! ## Searching -/

/-- **What comes after some work** that reports nothing. -/
theorem Yields.after {known : List Var} {x : Work α} {f : α → Work Unit} {logs : α → Log}
    {y z : Yield} {a : α} (hx : x w = .ok a w')
    (agree : Bindings.Agree known w'.bindings w.bindings) (pays : Pays cx start task [] z w w')
    (h : Yields cx start task known (f a) (logs a) y w' w'') :
    Yields cx start task known (x >>= f) (reportsAfter x logs) (z + y) w w'' where
  ends := Outcome.bind_ok_iff.2 ⟨a, w', hx, h.ends⟩
  serves := h.serves
  agree := h.agree.trans agree
  pays := by
    rw [reportsAfter, hx]
    exact pays.trans h.pays

/-- What comes after some work that does not concern the line. -/
theorem Yields.then {known : List Var} {x : Work α} {f : α → Work Unit} {logs : α → Log}
    {y : Yield} {a : α} (hx : x w = .ok a w') (agree : Bindings.Agree known w'.bindings w.bindings)
    (pays : Pays cx start task [] 0 w w')
    (h : Yields cx start task known (f a) (logs a) y w' w'') :
    Yields cx start task known (x >>= f) (reportsAfter x logs) y w w'' := by
  rw [← zero_add y]
  exact .after hx agree pays h

/-- Work for one thing after the other, if all of it leaves what is known as it was. -/
theorem exists_yields_each {known : List Var} {work : α → Work Unit} {logs : α → Log}
    {y : α → Yield} {as : List α} (each : ∀ a ∈ as, ∀ v, start.Serves task v.world.store →
      Bindings.Agree known v.bindings held →
      ∃ v', Yields cx start task known (work a) (logs a) (y a) v v')
    (serves : start.Serves task w.world.store) (agree : Bindings.Agree known w.bindings held) :
    ∃ w', Yields cx start task known (as.forM work) (reportsEach work logs as) (as.map y).sum
      w w' := by
  induction as generalizing w with
  | nil => exact ⟨w, rfl, serves, fun _ _ => rfl, .refl⟩
  | cons a as ih =>
    obtain ⟨v, first⟩ := each a (List.mem_cons_self ..) w serves agree
    obtain ⟨w', rest⟩ := ih (fun c hc => each c (List.mem_cons_of_mem _ hc)) first.serves
      (first.agree.trans agree)
    refine ⟨w', Outcome.bind_ok_iff.2 ⟨(), v, first.ends, rest.ends⟩, rest.serves,
      rest.agree.trans first.agree, ?_⟩
    have reports : reportsEach work logs (a :: as) w = logs a w ++ reportsEach work logs as v := by
      simp only [reportsEach, reportsAfter, first.ends]
    rw [reports, List.map_cons, List.sum_cons]
    exact first.pays.trans rest.pays

/-- **A lookup** finds what the loops range over, in some order. -/
theorem exists_matching (suits : task.Suits start) (serves : start.Serves task w.world.store)
    (body : task.clause.body = pre ++ slot :: rest) (positive : slot.step.positiveGoal? = some goal)
    (within : b.Within w.bindings) {bs : List Bindings}
    (ok : (task.loops cx start).next b slot.step = .ok bs) :
    ∃ tuples, matching cx task slot goal w = .ok tuples w ∧
      bs.Perm (tuples.map fun t => goal.bind t b) := by
  obtain ⟨hstep, hn⟩ := step_of_positive positive
  have hmem : .lookup goal ∈ task.clause.clause.body := hstep ▸ step_mem body
  rw [hstep] at ok
  obtain ⟨key, hkey, ok⟩ := Outcome.except_bind_ok_iff.1 ok
  rw [hn, if_neg Bool.false_ne_true] at ok
  cases ok
  have scanned (hread : goal.delta = false ∨ task.seed = none) :
      ((start.extent goal.relation).tuples.filter key.agrees).Perm
        (cx.listing.lookup w.world.store goal.relation key slot.index) := by
    have same := serves.extents goal.relation ⟨goal, hmem, rfl, .inr hread⟩
    refine .trans ?_ (cx.listing.lookup_perm ..).symm
    rw [Store.lookup, same]
    exact suits.built.lookup_perm.symm
  have hkey : goal.key cx.functions w.bindings = .ok key := within.key hkey
  rw [matching, Outcome.get_bind, hkey, ofExcept_bind]
  cases hd : goal.delta with
  | false =>
    refine ⟨_, rfl, List.Perm.map _ ?_⟩
    rw [Loops.range, hd]
    exact scanned (.inl hd)
  | true =>
    cases hs : task.seed with
    | none =>
      refine ⟨_, rfl, List.Perm.map _ ?_⟩
      rw [Loops.range, hd, Task.loops, hs]
      exact scanned (.inr hs)
    | some seed =>
      refine ⟨_, rfl, List.Perm.map _ ?_⟩
      rw [Loops.range, hd, Task.loops, hs]

/-- **Any other step** goes where the loops go, or gives up where they do. -/
theorem exists_perform (suits : task.Suits start) (serves : start.Serves task w.world.store)
    (body : task.clause.body = pre ++ slot :: rest) (positive : slot.step.positiveGoal? = none)
    {bs : List Bindings} (ok : (task.loops cx start).next w.bindings slot.step = .ok bs) :
    ∃ c, slot.perform cx.functions w.world.store w.bindings = .ok c ∧ bs = c.toList := by
  rw [Slot.perform]
  cases hstep : slot.step with
  | assign v t =>
    rw [hstep] at ok
    obtain ⟨c, hc, ok⟩ := Outcome.except_bind_ok_iff.1 ok
    cases ok
    have hc : Step.performAssign cx.functions v t w.bindings = .ok c := hc
    exact ⟨some c, by simp [hc], rfl⟩
  | check l r negated =>
    rw [hstep] at ok
    obtain ⟨go, hgo, ok⟩ := Outcome.except_bind_ok_iff.1 ok
    cases ok
    have hgo : Step.performCheck cx.functions l r negated w.bindings = .ok go := hgo
    exact ⟨if go then some w.bindings else none, by simp [hgo], by cases go <;> rfl⟩
  | destruct t f ys =>
    rw [hstep] at ok
    obtain ⟨c, hc, ok⟩ := Outcome.except_bind_ok_iff.1 ok
    cases ok
    exact ⟨c, hc, rfl⟩
  | lookup g =>
    have hn := negated_of_not_positive positive hstep
    have hmem : .lookup g ∈ task.clause.clause.body := hstep ▸ step_mem body
    rw [hstep] at ok
    obtain ⟨key, hkey, ok⟩ := Outcome.except_bind_ok_iff.1 ok
    rw [if_pos hn] at ok
    cases ok
    have hkey : g.key cx.functions w.bindings = .ok key := hkey
    have same := serves.extents g.relation ⟨g, hmem, rfl, .inl hn⟩
    have agree : w.world.store.hasMatch g.relation key slot.index =
        (start.extent g.relation).tuples.any key.agrees := by
      have served : w.world.store.hasMatch g.relation key slot.index =
          start.hasMatch g.relation key slot.index := by
        simp only [Store.hasMatch, Store.contains, Store.lookup, same]
      rw [served, Bool.eq_iff_iff, List.any_eq_true]
      refine suits.built.indexed.hasMatch_iff fun t ht => ?_
      rw [suits.exact g hmem hn t ht]
      exact (Goal.key_eq_ok_iff.1 hkey).length_eq
    dsimp only
    rw [hkey]
    refine ⟨_, rfl, ?_⟩
    rw [agree]
    change (if (start.extent g.relation).tuples.any key.agrees then [] else [w.bindings]) = _
    split <;> rfl

/-- **What is handed on** is owed by the tasks that it is handed to. -/
theorem pays_handedOn (body : task.clause.body = pre ++ slot :: rest)
    (positive : slot.step.positiveGoal? = some goal) (branch : Branch pre b w.bindings)
    {others : List (List Tuple)}
    (fine : ∀ t ∈ others.flatten, task.Fine cx start rest (goal.bind t b)) :
    Pays cx start task [] (others.flatten.map fun t =>
      cx.taken + task.yield cx start rest (goal.bind t b)).sum w { w with
        spawned := (others.map (suffix task goal rest w.bindings)).reverse ++ w.spawned } := by
  intro owed hw
  have handed : List.Forall₂ (task.Worth cx start)
      (others.map (suffix task goal rest w.bindings)).reverse
      (others.map fun ts => (ts.map fun t =>
        cx.taken + task.yield cx start rest (goal.bind t b)).sum).reverse := by
    rw [List.forall₂_reverse_iff, List.forall₂_map_left_iff, List.forall₂_map_right_iff,
      List.forall₂_same]
    exact fun ts hts => .goOn body positive branch fun t ht =>
      fine t (List.mem_flatten.2 ⟨ts, hts, ht⟩)
  have resume : ∀ t ∈ (others.map (suffix task goal rest w.bindings)).reverse,
      t.resumes = true := by
    intro t ht
    obtain ⟨ts, _, rfl⟩ := List.mem_map.1 (List.mem_reverse.1 ht)
    rfl
  have owes := hw.append handed
  rw [← List.filter_eq_self.2 resume, ← List.filter_append] at owes
  refine ⟨[], _, .nil, owes, ?_⟩
  rw [List.sum_reverse, List.map_flatten, List.sum_flatten, List.map_map]
  exact zero_add _

/-- **A batch is kept**, and the others are handed on. -/
theorem exists_shareOut (body : task.clause.body = pre ++ slot :: rest)
    (positive : slot.step.positiveGoal? = some goal) (serves : start.Serves task w.world.store)
    (branch : Branch pre b w.bindings)
    (fine : ∀ t ∈ tuples, task.Fine cx start rest (goal.bind t b)) :
    ∃ first others w', shareOut cx task slot goal rest tuples w = .ok first w' ∧
      tuples = first ++ others ∧ start.Serves task w'.world.store ∧ w'.bindings = w.bindings ∧
      Pays cx start task [] (others.map fun t =>
        cx.taken + task.yield cx start rest (goal.bind t b)).sum w w' := by
  cases hshare : shareOut cx task slot goal rest tuples w with
  | error e w' => exact (Sure.shareOut w e w' hshare).elim
  | ok first w' =>
    obtain ⟨others, rfl, idles⟩ := shareOut_ok hshare
    have work : w'.world.counters.work = w.world.counters.work :=
      Counted.shareOut w first w' rfl hshare
    have passes : Passes cx start task { w with
        spawned := (others.map (suffix task goal rest w.bindings)).reverse ++ w.spawned } w' :=
      .of_idles idles work
    refine ⟨first, others.flatten, w', rfl, rfl, passes.serves serves, passes.bindings, ?_⟩
    have handed := pays_handedOn body positive branch fun t ht =>
      fine t (List.mem_append_right _ ht)
    rw [← add_zero (List.sum _)]
    exact handed.trans passes.pays

/-- **A batch of tuples**, each searched from on its own branch. -/
theorem exists_yields_batch (orderly : task.clause.clause.Orderly)
    (body : task.clause.body = pre ++ slot :: rest) (positive : slot.step.positiveGoal? = some goal)
    {x : Work Unit} {logs : Log} (searches : ∀ c v, start.Serves task v.world.store →
      Branch (pre ++ [slot]) c v.bindings → task.Fine cx start rest c →
      ∃ v', Yields cx start task (before (pre ++ [slot])) x logs (task.yield cx start rest c) v v')
    (serves : start.Serves task w.world.store) (branch : Branch pre b w.bindings)
    (fine : ∀ t ∈ tuples, task.Fine cx start rest (goal.bind t b)) :
    ∃ w', Yields cx start task (before pre)
      (tuples.forM fun tuple => do take cx goal tuple; x)
      (reportsEach (fun tuple => do take cx goal tuple; x)
        (fun tuple => reportsAfter (take cx goal tuple) fun _ => logs) tuples)
      (tuples.map fun t => cx.taken + task.yield cx start rest (goal.bind t b)).sum w w' := by
  obtain ⟨_, disjoint, _⟩ := orderly_at orderly body
  refine exists_yields_each (fun t ht v serves
    (agree : Bindings.Agree (before pre) v.bindings w.bindings) => ?_) serves fun _ _ => rfl
  obtain ⟨v', yields⟩ := searches (goal.bind t b) (taking cx goal t v) serves
    ((branch.of_agree agree).bind positive t) (fine t ht)
  exact ⟨v', .after take_eq (fun u hu => get?_bind positive (disjoint hu)) pays_taking
    { yields with agree := yields.agree.subset before_subset_snoc }⟩

/-- **A lookup on a branch** finds tuples to go on with, which come to what the loops come to
there. -/
theorem exists_lookup (suits : task.Suits start) (serves : start.Serves task w.world.store)
    (body : task.clause.body = pre ++ slot :: rest) (positive : slot.step.positiveGoal? = some goal)
    (branch : Branch pre b w.bindings) (fine : task.Fine cx start (slot :: rest) b) :
    ∃ tuples, matching cx task slot goal w = .ok tuples w ∧
      (∀ t ∈ tuples, task.Fine cx start rest (goal.bind t b)) ∧
      task.yield cx start (slot :: rest) b =
        (tuples.map fun t => cx.taken + task.yield cx start rest (goal.bind t b)).sum := by
  obtain ⟨bs, ok, fine⟩ := fine
  obtain ⟨tuples, finds, perm⟩ := exists_matching suits serves body positive branch.within ok
  refine ⟨tuples, finds, fun t ht => fine _ (perm.mem_iff.2 (List.mem_map_of_mem ht)), ?_⟩
  have tolls : Loops.toll cx.taken slot.step = cx.taken := by
    rw [Loops.toll, positive]
    rfl
  rw [Task.yield, List.map_cons, Loops.weigh_cons ok, (perm.map _).sum_eq, List.map_map, tolls]
  rfl

/-- **Any other step on a branch** gives up, and then there is nothing to come to, or takes the
branch on. -/
theorem step_cases (suits : task.Suits start) (serves : start.Serves task w.world.store)
    (body : task.clause.body = pre ++ slot :: rest) (positive : slot.step.positiveGoal? = none)
    (branch : Branch pre b w.bindings) (fine : task.Fine cx start (slot :: rest) b) :
    (perform cx slot w = .ok false w ∧ task.yield cx start (slot :: rest) b = 0) ∨
      ∃ c v, perform cx slot w = .ok true v ∧ start.Serves task v.world.store ∧
        Branch (pre ++ [slot]) c v.bindings ∧ Bindings.Agree (before pre) v.bindings w.bindings ∧
        Pays cx start task [] 0 w v ∧ task.Fine cx start rest c ∧
        task.yield cx start (slot :: rest) b = task.yield cx start rest c := by
  obtain ⟨bs, ok, fine⟩ := fine
  obtain ⟨bs', ok', follow⟩ := Loops.next_of_within branch.within ok
  obtain ⟨held, performs, rfl⟩ := exists_perform suits serves body positive ok'
  have yields : task.yield cx start (slot :: rest) b =
      (bs.map fun c => Loops.toll cx.taken slot.step + task.yield cx start rest c).sum :=
    Loops.weigh_cons ok
  have tolls : Loops.toll cx.taken slot.step = 0 := by
    rw [Loops.toll, positive]
    rfl
  rw [perform_eq, performs]
  cases held with
  | none =>
    cases follow
    exact .inl ⟨rfl, yields⟩
  | some held' =>
    obtain ⟨c, _, within, ⟨⟩, rfl⟩ := List.forall₂_cons_right_iff.1 follow
    have once {known : Bindings} {ds : List Bindings} {d : Bindings}
        (ok : (task.loops cx start).next known slot.step = .ok ds) (hd : d ∈ ds) (v : Var)
        (hv : v ∉ slot.step.writes) : d.get? v = known.get? v :=
      ((Loops.mem_next_iff ok).1 hd).get?_eq hv
    obtain ⟨_, disjoint, _⟩ := orderly_at suits.orderly body
    refine .inr ⟨c, { w with bindings := held' }, rfl, serves,
      branch.next (once ok (List.mem_singleton.2 rfl)) within,
      fun v hv => once ok' (List.mem_singleton.2 rfl) v (disjoint hv), .of_eq rfl rfl,
      fine c (List.mem_singleton.2 rfl), ?_⟩
    rw [yields, List.map_singleton, List.sum_singleton, tolls, zero_add]

/-- **The search on a branch** yields what the loops come to there. -/
theorem exists_yields_search (failed : Bool) (suits : task.Suits start)
    (body : task.clause.body = pre ++ slots) (serves : start.Serves task w.world.store)
    (branch : Branch pre b w.bindings) (fine : task.Fine cx start slots b) :
    ∃ w', Yields cx start task (before pre)
      (search cx task (conclude cx task failed) slots) (searchReports cx task failed slots)
      (task.yield cx start slots b) w w' := by
  induction slots generalizing pre b w with
  | nil =>
    rw [search, searchReports]
    exact exists_yields_conclude failed suits.orderly serves branch.within fine
  | cons slot rest ih =>
    rw [search, searchReports]
    have body' := body_snoc body
    cases positive : slot.step.positiveGoal? with
    | some goal =>
      obtain ⟨tuples, finds, fine, total⟩ := exists_lookup suits serves body positive branch fine
      obtain ⟨first, others, v, keeps, rfl, serves, same, pays⟩ :=
        exists_shareOut body positive serves branch fine
      have branch' : Branch pre b v.bindings := branch.of_agree fun u _ => by rw [same]
      obtain ⟨w', yields⟩ := exists_yields_batch suits.orderly body positive
        (fun c u serves branch fine => ih body' serves branch fine) serves branch' fun t ht =>
          fine t (List.mem_append_left _ ht)
      rw [total, List.map_append, List.sum_append, add_comm]
      have first : (within slot.step.blame (matching cx task slot goal) >>=
          shareOut cx task slot goal rest) w = .ok first v :=
        Outcome.bind_ok_iff.2 ⟨_, w, within_ok_iff.2 finds, keeps⟩
      dsimp only
      rw [← bind_assoc]
      exact ⟨w', .after first (fun u _ => by rw [same]) pays yields⟩
    | none =>
      obtain ⟨stops, nothing⟩ | ⟨c, v, goes, serves, branch, agree, pays, fine, same⟩ :=
        step_cases suits serves body positive branch fine
      · rw [nothing]
        refine ⟨w, .then (within_ok_iff.2 stops) (fun _ _ => rfl) .refl ?_⟩
        exact ⟨rfl, serves, fun _ _ => rfl, .refl⟩
      · rw [same]
        obtain ⟨w', yields⟩ := ih body' serves branch fine
        refine ⟨w', .then (within_ok_iff.2 goes) agree pays ?_⟩
        exact { yields with agree := yields.agree.subset before_subset_snoc }

/-! ## From the first step to the last -/

variable (cx start task) in
theorem record_passes (clause : PlannedClause) (w : Worker) :
    ∃ v, record cx clause w = .ok () v ∧ Passes cx start task w v := by
  cases hrecord : record cx clause w with
  | error e v => exact (Sure.record w e v hrecord).elim
  | ok u v => exact ⟨v, rfl, .of_idles (record_ok hrecord) (Counted.record w u v rfl hrecord)⟩

variable (cx start task) in
theorem setOff_passes (failed : Bool) (w : Worker) :
    ∃ v, setOff cx task failed w = .ok () v ∧ Passes cx start task w v := by
  cases hsetOff : setOff cx task failed w with
  | error e v => exact (Sure.setOff w e v hsetOff).elim
  | ok u v =>
    refine ⟨v, rfl, ?_⟩
    have work : v.world.counters.work = w.world.counters.work :=
      Counted.setOff w u v rfl hsetOff
    obtain ⟨_, rfl⟩ | ⟨_, idles⟩ := setOff_ok hsetOff
    · exact .refl
    · exact Passes.fired.trans (.of_idles idles work)

/-- **Ending a task** adds nothing. -/
theorem Yields.settle {x : Work Unit} {log : Log} {y : Yield} {known : List Var}
    (h : Yields cx start task known x log y w w') (failed : Bool) :
    ∃ w'', Yields cx start task known (settle cx task failed x) log y w w'' := by
  obtain ⟨v, off, passes⟩ := setOff_passes cx start task failed w'
  obtain ⟨w'', recorded, passes'⟩ := record_passes cx start task task.clause v
  have all := passes.trans passes'
  refine ⟨w'', ?_, all.serves h.serves, ?_, ?_⟩
  · rw [Work.settle, h.ends]
    exact Outcome.bind_ok_iff.2 ⟨(), v, off, recorded⟩
  · rw [all.bindings]
    exact h.agree
  · rw [← add_zero y, ← List.append_nil (log w)]
    exact h.pays.trans all.pays

/-- **Going on over a batch** yields what the loops come to from its tuples. -/
theorem exists_yields_resume (failed : Bool) (suits : task.Suits start)
    (body : task.clause.body = pre ++ slot :: rest) (positive : slot.step.positiveGoal? = some goal)
    (serves : start.Serves task w.world.store) (branch : Branch pre b w.bindings)
    (fine : ∀ t ∈ tuples, task.Fine cx start rest (goal.bind t b)) :
    ∃ w', Yields cx start task (before pre) (resume cx task failed goal rest tuples)
      (resumeReports cx task failed goal rest tuples)
      (tuples.map fun t => cx.taken + task.yield cx start rest (goal.bind t b)).sum w w' := by
  obtain ⟨v, yields⟩ := exists_yields_batch suits.orderly body positive
    (fun c u serves branch fine =>
      exists_yields_search failed suits (body_snoc body) serves branch fine) serves branch fine
  exact yields.settle failed

/-- **A task from its first step on** yields what the loops come to. -/
theorem exists_yields_approach (failed : Bool) (suits : task.Suits start)
    (body : task.clause.body = pre ++ slots) (serves : start.Serves task w.world.store)
    (branch : Branch pre b w.bindings) (fine : task.Fine cx start slots b) :
    ∃ w', Yields cx start task (before pre) (approach cx task failed slots)
      (approachReports cx task failed slots) (task.yield cx start slots b) w w' := by
  induction slots generalizing pre b w with
  | nil =>
    rw [approach, approachReports]
    obtain ⟨v, yields⟩ :=
      exists_yields_conclude failed suits.orderly serves branch.within fine
    exact yields.settle failed
  | cons slot rest ih =>
    rw [approach, approachReports]
    have body' := body_snoc body
    cases positive : slot.step.positiveGoal? with
    | some goal =>
      obtain ⟨tuples, finds, fine, total⟩ := exists_lookup suits serves body positive branch fine
      obtain ⟨u, recorded, passes⟩ := record_passes cx start task task.clause w
      obtain ⟨first, others, v, keeps, rfl, serves, same, pays⟩ :=
        exists_shareOut body positive (passes.serves serves)
          (branch.of_agree fun v _ => by rw [passes.bindings]) fine
      have bindings := same.trans passes.bindings
      obtain ⟨w', yields⟩ := exists_yields_resume failed suits body positive serves
        (branch.of_agree fun v _ => by rw [bindings]) fun t ht => fine t (List.mem_append_left _ ht)
      rw [total, List.map_append, List.sum_append, add_comm]
      have first : (within slot.step.blame (matching cx task slot goal) >>= fun tuples =>
          record cx task.clause >>= fun _ => shareOut cx task slot goal rest tuples) w =
            .ok first v :=
        Outcome.bind_ok_iff.2 ⟨_, w, within_ok_iff.2 finds,
          Outcome.bind_ok_iff.2 ⟨(), u, recorded, keeps⟩⟩
      have pays := passes.pays.trans pays
      rw [zero_add] at pays
      refine ⟨w', ?_⟩
      simpa only [bind_assoc] using
        Yields.after first (fun u _ => by rw [bindings]) pays yields
    | none =>
      obtain ⟨stops, nothing⟩ | ⟨c, v, goes, serves, branch, agree, pays, fine, same⟩ :=
        step_cases suits serves body positive branch fine
      · rw [nothing]
        obtain ⟨v, recorded, passes⟩ := record_passes cx start task task.clause w
        refine ⟨v, .then (within_ok_iff.2 stops) (fun _ _ => rfl) .refl ?_⟩
        exact ⟨recorded, passes.serves serves, fun _ _ => by rw [passes.bindings], passes.pays⟩
      · rw [same]
        obtain ⟨w', yields⟩ := ih body' serves branch fine
        refine ⟨w', .then (within_ok_iff.2 goes) agree pays ?_⟩
        exact { yields with agree := yields.agree.subset before_subset_snoc }

/-! ## Going on -/

theorem searchReports_suffix : searchReports cx (suffix task goal rest b tuples) failed slots =
    searchReports cx task failed slots := by
  induction slots with
  | nil => rfl
  | cons slot slots ih =>
    rw [searchReports, searchReports, ih]
    simp only [search_suffix]
    rfl

/-- **A task that goes on** does what the task does that it goes on from. -/
theorem work_suffix : (suffix task goal rest b tuples).work cx failed =
    resume cx task failed goal rest tuples := by
  change settle cx task failed (tuples.forM fun tuple => do
    take cx goal tuple
    search cx (suffix task goal rest b tuples) (conclude cx task failed) rest) = _
  simp only [search_suffix]
  rfl

/-- It also reports what that task would. -/
theorem reports_suffix {world : World} : (suffix task goal rest b tuples).reports cx failed world =
    resumeReports cx task failed goal rest tuples
      ((suffix task goal rest b tuples).worker world) := by
  change resumeReports cx (suffix task goal rest b tuples) failed goal rest tuples _ = _
  rw [resumeReports, resumeReports, searchReports_suffix]
  simp only [search_suffix]
  rfl

end Work

end Datalog
