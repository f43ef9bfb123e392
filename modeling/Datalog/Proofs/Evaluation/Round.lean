import Datalog.Proofs.Evaluation.Search
import Datalog.Proofs.Evaluation.Seeds

/-!
# Proofs/Evaluation/Round — agendas on the way to a fixpoint

An agenda is on the way (`World.OnWay`) if its store lies between the facts at the start and
those in the end, its tasks are sound, and everything that the rules admit is stored, due in a
task, or waits in the delta.  A task that ends well keeps it there (`OnWay.run`), so a whole round
does (`Evaluation.onWay_of_round`), and what the delta holds is due in the tasks of the next
round.
-/

namespace Datalog

variable {cx : Context} {rules : List Rule} {start F G owed : Facts} {task : Task}
  {others tasks tasks' : List Task} {failed : Bool}

namespace Work

variable {w w' : Worker} {pre rest : List Slot} {slot : Slot} {goal : Goal} {due : Tuple → Prop}

/-- **A stretch of work is done**: the worker is safe, and what was due is settled. -/
structure Did (cx : Context) (rules : List Rule) (start F G owed : Facts) (task : Task)
    (others : List Task) (due : Tuple → Prop) (w w' : Worker) : Prop where
  safe : Safe cx rules start G owed task others w'
  grows : w.Grows w'
  settled : ∀ x, due x → Settled cx start F task w' x

theorem Went.did {known : List Var} (h : Went cx rules start F G owed task others known due w w') :
    Did cx rules start F G owed task others due w w' :=
  ⟨h.safe, h.grows, h.settled⟩

section

variable (diff : cx.stratum.Differential cx.functions rules start) (ends : cx.Ends start G)
include diff ends

/-- **The end of a task** undoes nothing. -/
theorem settle_did {work : Work Unit} {u : Unit}
    (each : ∀ {w₁}, work w = .ok () w₁ → Did cx rules start F G owed task others due w w₁)
    (ok : settle cx task failed work w = .ok u w') :
    Did cx rules start F G owed task others due w w' := by
  obtain ⟨w₁, w₂, hwork, hsetOff, idles⟩ := settle_ok ok
  have did := each hwork
  obtain ⟨safe, grows⟩ := did.safe.setOff diff ends hsetOff
  have grows' := grows.trans (.of_idles idles)
  exact ⟨safe.of_idles idles, did.grows.trans grows', fun x hx => (did.settled x hx).mono grows'⟩

variable (sound : task.Sound cx start G) (hF : F.Within G)
include sound hF

/-- **A task that goes on** settles what is due after the tuples it was handed. -/
theorem resume_did {tuples : List Tuple} {u : Unit} (body : task.clause.body = pre ++ slot :: rest)
    (positive : slot.step.positiveGoal? = some goal)
    (safe : Safe cx rules start G owed task others w) (low : F.Within (Store.Holds w.world.store))
    (reached : task.Reached cx start G pre w.bindings)
    (found : ∀ y ∈ tuples, (task.scene cx start G).Finds goal w.bindings y)
    (ok : resume cx task failed goal rest tuples w = .ok u w') :
    Did cx rules start F G owed task others (fun tuple => ∃ y ∈ tuples,
      task.clause.head.Due (task.scene cx start F) (rest.map Slot.step) (goal.bind y w.bindings)
        tuple) w w' := by
  have body' := body_snoc body
  refine settle_did diff ends (fun hwork => ?_) ok
  exact (forM_went sound hF body positive
    (fun safe low reached ok => search_went diff ends sound hF body' safe low reached ok)
    safe low reached found hwork).did

/-- **A task that starts** settles what is due in its clause. -/
theorem approach_did {slots : List Slot} {u : Unit} (body : task.clause.body = pre ++ slots)
    (safe : Safe cx rules start G owed task others w) (low : F.Within (Store.Holds w.world.store))
    (reached : task.Reached cx start G pre w.bindings)
    (ok : approach cx task failed slots w = .ok u w') :
    Did cx rules start F G owed task others (fun tuple =>
      task.clause.head.Due (task.scene cx start F) (slots.map Slot.step) w.bindings tuple) w w' := by
  induction slots generalizing pre w w' u with
  | nil =>
    refine settle_did diff ends (fun hwork => ?_) ok
    exact (search_went diff ends sound hF body safe low reached hwork).did
  | cons slot rest ih =>
    rw [approach] at ok
    cases hpositive : slot.step.positiveGoal? with
    | some goal =>
      simp only [hpositive] at ok
      obtain ⟨tuples, _, hmatching, ok⟩ := Outcome.bind_ok_iff.1 ok
      obtain ⟨rfl, found, split⟩ := matching_went safe low hpositive (within_ok_iff.1 hmatching)
      obtain ⟨_, w₁, hrecord, ok⟩ := Outcome.bind_ok_iff.1 ok
      have idles := record_ok hrecord
      obtain ⟨first, w₂, hshare, ok⟩ := Outcome.bind_ok_iff.1 ok
      have reached₁ : task.Reached cx start G pre w₁.bindings := idles.bindings ▸ reached
      obtain ⟨safe₂, grows, bindings, subset, share⟩ := shareOut_went (F := F) sound
        (safe.of_idles idles) body hpositive reached₁ (idles.bindings ▸ found) hshare
      have bindings := bindings.trans idles.bindings
      have grows := (Worker.Grows.of_idles idles).trans grows
      have did := resume_did diff ends sound hF body hpositive safe₂ (low.trans grows.store)
        (bindings ▸ reached) (fun y hy => bindings ▸ found y (subset y hy)) ok
      refine ⟨did.safe, grows.trans did.grows, fun tuple due => ?_⟩
      rcases share tuple (idles.bindings ▸ split _ tuple due) with due | settled
      · exact did.settled tuple (bindings ▸ idles.bindings ▸ due)
      · exact settled.mono did.grows
    | none =>
      simp only [hpositive] at ok
      obtain ⟨go, w₁, hperform, ok⟩ := Outcome.bind_ok_iff.1 ok
      obtain ⟨safe₁, grows, _, goes, step⟩ :=
        perform_went ends sound safe hF body hpositive reached (within_ok_iff.1 hperform)
      cases go with
      | false =>
        have idles := record_ok ok
        exact ⟨safe₁.of_idles idles, grows.trans (.of_idles idles),
          fun tuple due => absurd (step _ tuple due).1 Bool.false_ne_true⟩
      | true =>
        have body' := body_snoc body
        have did := ih body' safe₁ (low.trans grows.store) (goes rfl) ok
        exact ⟨did.safe, grows.trans did.grows, fun tuple due =>
          did.settled tuple (step _ tuple due).2⟩

/-- **A task settles what is due in it.** -/
theorem work_did {u : Unit} (safe : Safe cx rules start G owed task others w)
    (bindings : w.bindings = (task.resumption.map (·.bindings)).getD ∅)
    (low : F.Within (Store.Holds w.world.store)) (ok : task.work cx failed w = .ok u w') :
    Did cx rules start F G owed task others (task.Due cx start F) w w' := by
  rw [Task.work] at ok
  cases hr : task.resumption with
  | none =>
    simp only [hr] at ok bindings
    have did := approach_did diff ends sound hF (List.nil_append _).symm safe low
      (bindings ▸ Task.reached_nil) ok
    refine ⟨did.safe, did.grows, fun tuple due => did.settled tuple ?_⟩
    rw [Task.Due, hr] at due
    rw [bindings]
    exact due
  | some r =>
    simp only [hr] at ok bindings
    obtain ⟨pre, slot, body, positive, reached, found⟩ := sound.resumes r hr
    have bindings : w.bindings = r.bindings := bindings
    have did := resume_did diff ends sound hF body positive safe low (bindings ▸ reached)
      (bindings ▸ found) ok
    refine ⟨did.safe, did.grows, fun tuple due => did.settled tuple ?_⟩
    rw [Task.Due, hr] at due
    rw [bindings]
    exact due

end

end Work

/-! ## Agendas -/

/-- Tuples that wait for the next round. -/
def World.Delayed (world : World) : Facts := fun r x => x ∈ (world.delta.get? r).getD []

/-- **An agenda on the way**: its store lies between the start and the end, its tasks are sound,
what waits in the delta is stored, and everything that the rules admit is accounted for. -/
structure World.OnWay (cx : Context) (rules : List Rule) (start G : Facts) (world : World)
    (tasks : List Task) : Prop where
  store : Store.Between start G world.store
  sound : ∀ t ∈ tasks, t.Sound cx start G
  delayed : world.Delayed.Within (Store.Holds world.store)
  covered : Covered cx rules start (Store.Holds world.store) (fun _ _ => False) tasks world.Delayed

namespace World.OnWay

variable {world : World}

/-- The order of the tasks makes no difference. -/
theorem congr (h : world.OnWay cx rules start G tasks) (same : ∀ t, t ∈ tasks' ↔ t ∈ tasks) :
    world.OnWay cx rules start G tasks' :=
  ⟨h.store, fun t ht => h.sound t ((same t).1 ht), h.delayed,
    h.covered.mono (fun t ht => (same t).2 ht) (.refl _)⟩

/-- **The worker of a task** owes what is due in it. -/
theorem safe (h : world.OnWay cx rules start G (task :: others)) :
    Work.Safe cx rules start G
      (fun r x => r = task.clause.head.relation ∧ task.Due cx start (Store.Holds world.store) x) task
      others (task.worker world) := by
  have pending : Work.Pending task (task.worker world) = world.Delayed := by
    funext r x
    refine propext ⟨fun hx => hx.resolve_left ?_, .inr⟩
    rintro ⟨_, hx⟩
    cases hx
  refine ⟨h.store, nofun, ?_, ?_⟩
  · rw [pending]
    exact h.delayed
  · rw [pending]
    exact h.covered.take

/-- **A task that ends well** keeps its agenda on the way. -/
theorem run (diff : cx.stratum.Differential cx.functions rules start) (ends : cx.Ends start G)
    (h : world.OnWay cx rules start G (task :: others))
    (ok : (task.run cx false world).result = .ok ()) :
    (task.run cx false world).world.OnWay cx rules start G
      ((task.run cx false world).spawned ++ others) := by
  obtain ⟨w, hwork, hrun⟩ := Task.run_ok ok
  rw [hrun]
  have sound := h.sound task (List.mem_cons_self ..)
  have did := Work.work_did diff ends sound h.store.below h.safe rfl (.refl _) hwork
  -- whatever the invariant, nothing is batched in the end
  have hbatch : w.batch = [] :=
    (Work.Keeps.work (I := fun _ => True) ⟨fun _ h => h, fun _ h => h⟩ (fun _ _ _ _ _ h => h)
      (fun _ _ _ h _ => h) (fun _ _ _ h _ => h) _ _ _ ⟨trivial, rfl⟩ hwork).2
  have pending : Work.Pending task w = w.world.Delayed := by
    funext r x
    refine propext ⟨fun hx => hx.resolve_left ?_, .inr⟩
    rintro ⟨_, hx⟩
    rw [hbatch] at hx
    cases hx
  refine ⟨did.safe.store, fun t ht => ?_, pending ▸ did.safe.pending, ?_⟩
  · exact (List.mem_append.1 ht).elim (did.safe.spawned t)
      fun ht => h.sound t (List.mem_cons_of_mem _ ht)
  · refine pending ▸ did.safe.covered.settle ?_
    rintro r x ⟨rfl, due⟩
    rcases did.settled x due with stored | ⟨t, ht, hr, due⟩
    · exact .stored stored
    · exact .waits t (List.mem_append_left _ ht) hr (due.mono did.grows.store)

/-- An empty delta holds nothing back. -/
theorem not_delayed {r : Relation} {x : Tuple} : ¬Delayed { world with delta := ∅ } r x := by
  rw [Delayed, Assoc.get?_emptyCollection]
  exact List.not_mem_nil

/-- **The base tasks are on the way.** -/
theorem base (diff : cx.stratum.Differential cx.functions rules start) (ends : cx.Ends start G)
    (store : Store.Between start G world.store) :
    World.OnWay cx rules start G { world with delta := ∅ } (Evaluation.baseTasks cx) := by
  refine ⟨store, fun t ht => ?_, fun r x hx => (not_delayed hx).elim, ?_⟩
  · obtain ⟨c, hc, rfl⟩ := List.mem_map.1 ht
    exact Task.sound_of_base diff ends hc
  · refine .of_base diff (fun r x hx => ends.measured r x (store.below r x hx)) fun c hc => ?_
    exact ⟨_, List.mem_map_of_mem hc, rfl, rfl, rfl⟩

/-- **What waits in the delta** is due in the tasks of the next round. -/
theorem seeded (diff : cx.stratum.Differential cx.functions rules start) (ends : cx.Ends start G)
    (h : world.OnWay cx rules start G []) :
    World.OnWay cx rules start G { world with delta := ∅ }
      (Evaluation.seededTasks cx world.delta) := by
  refine ⟨h.store, fun t ht => ?_, fun r x hx => (not_delayed hx).elim, ?_⟩
  · rw [Evaluation.seededTasks_eq] at ht
    obtain ⟨s, hs, ht⟩ := List.mem_flatMap.1 ht
    obtain ⟨v, hv, rfl⟩ := List.mem_map.1 ht
    refine Task.sound_of_fired diff ends hv (fun x hx => h.store.below _ _ (h.delayed _ _ ?_)) _
    exact Evaluation.mem_of_drained hs hx
  · refine h.covered.setOff (fun r x hx v hv => .inr ?_) (List.nil_subset _)
    obtain ⟨s, hs, rfl, hmem⟩ := Evaluation.exists_drained hx hv
    refine ⟨{ clause := v, seed := some s.tuples, generation := s.generation }, ?_, rfl, rfl,
      s.tuples, rfl, hmem⟩
    rw [Evaluation.seededTasks_eq]
    exact List.mem_flatMap.2 ⟨s, hs, List.mem_map_of_mem hv⟩

end World.OnWay

/-! ## Rounds -/

namespace Evaluation

variable {schedule : Schedule} {budget : Nat} {e e' : Evaluation}

/-- **A round that ends well** leaves nothing but the delta to account for. -/
theorem onWay_of_round (diff : e.context.stratum.Differential e.context.functions rules start)
    (ends : e.context.Ends start G) {u : Unit}
    (h : round schedule budget tasks e = some (e', .ok u))
    (onWay : World.OnWay e.context rules start G { e.world with delta := ∅ } tasks) :
    e'.context = e.context ∧ e'.world.OnWay e.context rules start G [] := by
  obtain ⟨a, hdrain, hfault, rfl⟩ := round_ok h
  refine ⟨rfl, ?_⟩
  have turned : World.OnWay e.context rules start G { e.world with delta := ∅ } tasks.reverse :=
    onWay.congr fun t => List.mem_reverse
  obtain ⟨h', hwaiting⟩ := Agenda.drain_induction
    (P := fun a => a.world.OnWay e.context rules start G a.waiting)
    (fun a i task hi ok h => by
      have perm := Agenda.perm_waiting hi
      exact (h.congr fun t => perm.mem_iff).run diff ends ok) hdrain hfault
    ⟨turned.store, turned.sound, turned.delayed, turned.covered⟩
  rwa [hwaiting] at h'

/-- **An evaluation that ends well** has stored whatever the rules admit. -/
theorem saturated_of_run (diff : e.context.stratum.Differential e.context.functions rules start)
    (ends : e.context.Ends start G) (store : Store.Between start G e.world.store)
    {summary : Summary} (h : run schedule budget e = some (e', .ok summary)) :
    Store.Between start G e'.world.store ∧
      (Stratum.admitted e.context.functions rules start (Store.Holds e'.world.store)).Within
        (Store.Holds e'.world.store) := by
  obtain ⟨e₁, ⟨context, onWay⟩, hempty, rfl⟩ := run_induction
    (P := fun e₁ => e₁.context = e.context ∧ e₁.world.OnWay e.context rules start G []) h
    (fun e₁ u hround => onWay_of_round (e := { e with phase := .baseRound }) diff ends hround
      (.base diff ends store))
    (fun e₁ e₂ number u ⟨context, onWay⟩ hround => by
      obtain ⟨context', onWay'⟩ := onWay_of_round (e := { e₁ with phase := .recursiveRound number })
        (context ▸ diff) (context ▸ ends) hround
        (context ▸ onWay.seeded diff ends)
      exact ⟨context'.trans context, by rwa [← context]⟩)
  refine ⟨onWay.store, ?_⟩
  have last := onWay.seeded diff ends
  rw [← context, hempty, context] at last
  exact (last.covered.mono (List.Subset.refl _) fun r x hx => World.OnWay.not_delayed hx).saturated

end Evaluation

end Datalog
