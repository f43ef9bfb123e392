import Datalog.Proofs.Derivation
import Datalog.Proofs.Evaluation.Round

/-!
# Proofs/Evaluation/Failure — what is left after a fault

A task stops at its first fault, which is a real one: its clause faults on a path over facts that
hold in the end (`Work.Broke.faults`).  What it has stored until then, and the tasks that it has
made, are as sound as if it had gone on.  So the store of an evaluation lies between the facts at
the start and those in the end whichever way it ends (`Evaluation.halts`).
-/

namespace Datalog

variable {cx : Context} {rules : List Rule} {start G owed : Facts} {task : Task}
  {others tasks : List Task} {failed : Bool}

namespace Work

variable {w w' w'' : Worker} {pre rest : List Slot} {slot : Slot} {goal : Goal}

/-! ## Work that fails -/

/-- A step that fails has a term without a value. -/
theorem fails_of_perform {fns : Functions} {store : Store} {b : Bindings} {e : Abort}
    (h : slot.perform fns store b = .error e) : slot.step.Fails fns b := by
  obtain ⟨t, ht, he⟩ := Slot.exists_of_perform_error h
  exact Step.fails_iff.2 ⟨t, ht, Term.value?_eq_none he⟩

/-- **A stretch of work that fails** leaves the worker safe, and its clause faults. -/
structure Broke (cx : Context) (rules : List Rule) (start G owed : Facts) (task : Task)
    (others : List Task) (w w' : Worker) : Prop where
  safe : Safe cx rules start G owed task others w'
  grows : w.Grows w'
  faults : task.clause.clause.Faults (task.scene cx start G)

theorem Broke.after (h : Broke cx rules start G owed task others w' w'') (grows : w.Grows w') :
    Broke cx rules start G owed task others w w'' :=
  ⟨h.safe, grows.trans h.grows, h.faults⟩

section

variable (sound : task.Sound cx start G)
include sound

/-- **A step that fails where the search stands** is a fault of the clause. -/
theorem faults_of_fails (body : task.clause.body = pre ++ slot :: rest)
    (reached : task.Reached cx start G pre w.bindings)
    (fails : slot.step.Fails cx.functions w.bindings) :
    task.clause.clause.Faults (task.scene cx start G) := by
  obtain ⟨c, path, agree⟩ := reached
  obtain ⟨reads, _⟩ := orderly_at sound.orderly body
  refine .inl ?_
  rw [PlannedClause.clause, body, List.map_append]
  exact path.breaks (.here (fails.transfer reads agree.symm))

/-- **A conclusion that fails** is a fault of the clause, if all indices can take its tuples. -/
theorem conclude_broke {e : Abort} (body : task.clause.body = pre ++ [])
    (safe : Safe cx rules start G owed task others w) (shaped : Store.Shaped w.world.store)
    (reached : task.Reached cx start G pre w.bindings)
    (h : conclude cx task failed w = .error e w') :
    Broke cx rules start G owed task others w w' := by
  rcases conclude_error h with ⟨rfl, _, none, _⟩ | ⟨tuple, m, value, misfit, _⟩
  · refine ⟨safe, .refl _, .inr ?_⟩
    obtain ⟨c, path, agree⟩ := reached
    rw [before_eq_written body] at agree
    refine ⟨c, ?_, ?_⟩
    · rw [PlannedClause.clause, body, List.append_nil]
      exact path
    · intro tuple value
      rw [Tuple.evaluate_congr (agree.subset sound.orderly.head)] at value
      cases none.symm.trans value
  · exact (shaped.fits (sound.orderly.length_eq value) m misfit).elim

/-- **A loop over the tuples found fails** at one of them. -/
theorem forM_broke {x : Work Unit} {tuples : List Tuple} {e : Abort}
    (body : task.clause.body = pre ++ slot :: rest)
    (positive : slot.step.positiveGoal? = some goal)
    (well : ∀ {v v' : Worker} {u : Unit}, Safe cx rules start G owed task others v →
      task.Reached cx start G (pre ++ [slot]) v.bindings → x v = .ok u v' →
      Safe cx rules start G owed task others v' ∧ v.Grows v' ∧
        Bindings.Agree (before (pre ++ [slot])) v'.bindings v.bindings)
    (badly : ∀ {v v' : Worker} {e : Abort}, Safe cx rules start G owed task others v →
      Store.Shaped v.world.store → task.Reached cx start G (pre ++ [slot]) v.bindings →
      x v = .error e v' → Broke cx rules start G owed task others v v')
    (safe : Safe cx rules start G owed task others w) (shaped : Store.Shaped w.world.store)
    (reached : task.Reached cx start G pre w.bindings)
    (found : ∀ y ∈ tuples, (task.scene cx start G).Finds goal w.bindings y)
    (h : (tuples.forM fun y => do
      take cx goal y
      x) w = .error e w') : Broke cx rules start G owed task others w w' := by
  obtain ⟨hstep, _⟩ := step_of_positive positive
  obtain ⟨reads, _⟩ := orderly_at sound.orderly body
  rw [hstep] at reads
  induction tuples generalizing w with
  | nil => exact (Outcome.pure_error_iff.1 h).elim
  | cons y ys ih =>
    have hy := found y (List.mem_cons_self ..)
    rcases Outcome.bind_error_iff.1 h with h | ⟨_, w₂, first, later⟩
    · obtain ⟨_, w₁, htake, hx⟩ := Sure.take.bind_error h
      obtain ⟨safe₁, grows, _, step, _⟩ := take_went sound body positive safe reached hy htake
      exact (badly safe₁ (grows.shaped shaped) step hx).after grows
    · obtain ⟨_, w₁, htake, hx⟩ := Outcome.bind_ok_iff.1 first
      obtain ⟨safe₁, grows, _, step, back⟩ := take_went sound body positive safe reached hy htake
      obtain ⟨safe₂, grows₂, agree⟩ := well safe₁ step hx
      have agree := back _ agree
      have grows' := grows.trans grows₂
      exact (ih safe₂ (grows'.shaped shaped) (reached.of_agree agree.symm)
        (fun z hz => (found z (List.mem_cons_of_mem _ hz)).transfer (agree.symm.subset reads))
        later).after grows'

variable (diff : cx.stratum.Differential cx.functions rules start) (ends : cx.Ends start G)
include diff ends

/-- **A search that fails.** -/
theorem search_broke {slots : List Slot} {e : Abort} (body : task.clause.body = pre ++ slots)
    (safe : Safe cx rules start G owed task others w) (shaped : Store.Shaped w.world.store)
    (reached : task.Reached cx start G pre w.bindings)
    (h : search cx task (conclude cx task failed) slots w = .error e w') :
    Broke cx rules start G owed task others w w' := by
  induction slots generalizing pre w w' e with
  | nil => exact conclude_broke sound body safe shaped reached h
  | cons slot rest ih =>
    have body' := body_snoc body
    rw [Work.search] at h
    cases hpositive : slot.step.positiveGoal? with
    | some goal =>
      simp only [hpositive] at h
      rcases Outcome.bind_error_iff.1 h with h | ⟨tuples, _, hmatching, h⟩
      · obtain ⟨_, h, _⟩ := within_error h
        obtain ⟨rfl, none⟩ := matching_error h
        have fails := (step_of_positive hpositive).1 ▸ Step.fails_of_key none
        exact ⟨safe, .refl _, faults_of_fails sound body reached fails⟩
      · obtain ⟨rfl, found, _⟩ := matching_went safe safe.store.above hpositive
          (within_ok_iff.1 hmatching)
        obtain ⟨first, w₁, hshare, h⟩ := Sure.shareOut.bind_error h
        obtain ⟨safe₁, grows, bindings, subset, _⟩ :=
          shareOut_went (F := start) sound safe body hpositive reached found hshare
        refine (forM_broke sound body hpositive (fun safe step ok => ?_) (ih body') safe₁
          (grows.shaped shaped) (bindings ▸ reached) (fun y hy => bindings ▸ found y (subset y hy))
          h).after grows
        have went := search_went diff ends sound ends.within body' safe safe.store.above step ok
        exact ⟨went.safe, went.grows, went.agree⟩
    | none =>
      simp only [hpositive] at h
      rcases Outcome.bind_error_iff.1 h with h | ⟨go, w₁, hperform, h⟩
      · obtain ⟨_, h, _⟩ := within_error h
        obtain ⟨rfl, none⟩ := perform_error h
        have fails := fails_of_perform none
        exact ⟨safe, .refl _, faults_of_fails sound body reached fails⟩
      · obtain ⟨safe₁, grows, _, goes, _⟩ := perform_went ends sound safe ends.within body
          hpositive reached (within_ok_iff.1 hperform)
        cases go with
        | false => exact (Outcome.pure_error_iff.1 h).elim
        | true => exact (ih body' safe₁ (grows.shaped shaped) (goes rfl) h).after grows

omit sound

/-- **The end of a task that fails** undoes nothing. -/
theorem settle_broke {work : Work Unit} {e : Abort}
    (each : ∀ {e₁ : Abort} {w₁ : Worker}, work w = .error e₁ w₁ →
      Broke cx rules start G owed task others w w₁)
    (h : settle cx task failed work w = .error e w') :
    Broke cx rules start G owed task others w w' := by
  obtain ⟨e₁, w₁, hwork, rfl | ⟨w₂, hsetOff, idles⟩⟩ := settle_error h
  · exact each hwork
  · have broke := each hwork
    obtain ⟨safe, grows⟩ := broke.safe.setOff diff ends hsetOff
    exact ⟨safe.of_idles idles, (broke.grows.trans grows).trans (.of_idles idles), broke.faults⟩

include sound

theorem resume_broke {tuples : List Tuple} {e : Abort} (body : task.clause.body = pre ++ slot :: rest)
    (positive : slot.step.positiveGoal? = some goal)
    (safe : Safe cx rules start G owed task others w) (shaped : Store.Shaped w.world.store)
    (reached : task.Reached cx start G pre w.bindings)
    (found : ∀ y ∈ tuples, (task.scene cx start G).Finds goal w.bindings y)
    (h : resume cx task failed goal rest tuples w = .error e w') :
    Broke cx rules start G owed task others w w' := by
  have body' := body_snoc body
  refine settle_broke diff ends (fun hwork => ?_) h
  refine forM_broke sound body positive (fun safe step ok => ?_)
    (fun safe shaped step h => search_broke sound diff ends body' safe shaped step h)
    safe shaped reached found hwork
  have went := search_went diff ends sound ends.within body' safe safe.store.above step ok
  exact ⟨went.safe, went.grows, went.agree⟩

theorem approach_broke {slots : List Slot} {e : Abort} (body : task.clause.body = pre ++ slots)
    (safe : Safe cx rules start G owed task others w) (shaped : Store.Shaped w.world.store)
    (reached : task.Reached cx start G pre w.bindings)
    (h : approach cx task failed slots w = .error e w') :
    Broke cx rules start G owed task others w w' := by
  induction slots generalizing pre w w' e with
  | nil =>
    exact settle_broke diff ends (fun hwork => conclude_broke sound body safe shaped reached hwork) h
  | cons slot rest ih =>
    rw [approach] at h
    cases hpositive : slot.step.positiveGoal? with
    | some goal =>
      simp only [hpositive] at h
      rcases Outcome.bind_error_iff.1 h with h | ⟨tuples, _, hmatching, h⟩
      · obtain ⟨_, h, _⟩ := within_error h
        obtain ⟨rfl, none⟩ := matching_error h
        have fails := (step_of_positive hpositive).1 ▸ Step.fails_of_key none
        exact ⟨safe, .refl _, faults_of_fails sound body reached fails⟩
      · obtain ⟨rfl, found, _⟩ := matching_went safe safe.store.above hpositive
          (within_ok_iff.1 hmatching)
        obtain ⟨_, w₁, hrecord, h⟩ := Sure.record.bind_error h
        have idles := record_ok hrecord
        obtain ⟨first, w₂, hshare, h⟩ := Sure.shareOut.bind_error h
        have reached₁ : task.Reached cx start G pre w₁.bindings := idles.bindings ▸ reached
        obtain ⟨safe₂, grows, bindings, subset, _⟩ := shareOut_went (F := start) sound
          (safe.of_idles idles) body hpositive reached₁ (idles.bindings ▸ found) hshare
        have bindings := bindings.trans idles.bindings
        have grows := (Worker.Grows.of_idles idles).trans grows
        exact (resume_broke sound diff ends body hpositive safe₂ (grows.shaped shaped)
          (bindings ▸ reached) (fun y hy => bindings ▸ found y (subset y hy)) h).after grows
    | none =>
      simp only [hpositive] at h
      rcases Outcome.bind_error_iff.1 h with h | ⟨go, w₁, hperform, h⟩
      · obtain ⟨_, h, _⟩ := within_error h
        obtain ⟨rfl, none⟩ := perform_error h
        have fails := fails_of_perform none
        exact ⟨safe, .refl _, faults_of_fails sound body reached fails⟩
      · obtain ⟨safe₁, grows, _, goes, _⟩ := perform_went ends sound safe ends.within body
          hpositive reached (within_ok_iff.1 hperform)
        cases go with
        | false => exact (Sure.record _ _ _ h).elim
        | true =>
          have body' := body_snoc body
          exact (ih body' safe₁ (grows.shaped shaped) (goes rfl) h).after grows

/-- **A task that fails.** -/
theorem work_broke {e : Abort} (safe : Safe cx rules start G owed task others w)
    (shaped : Store.Shaped w.world.store)
    (bindings : w.bindings = (task.resumption.map (·.bindings)).getD ∅)
    (h : task.work cx failed w = .error e w') :
    Broke cx rules start G owed task others w w' := by
  rw [Task.work] at h
  cases hr : task.resumption with
  | none =>
    simp only [hr] at h bindings
    exact approach_broke sound diff ends (List.nil_append _).symm safe shaped
      (bindings ▸ Task.reached_nil) h
  | some r =>
    simp only [hr] at h bindings
    obtain ⟨pre, slot, body, positive, reached, found⟩ := sound.resumes r hr
    have bindings : w.bindings = r.bindings := bindings
    exact resume_broke sound diff ends body positive safe shaped (bindings ▸ reached)
      (bindings ▸ found) h

end

end Work

/-! ## Agendas, however they end -/

/-- **Some clause faults** on a path over the facts. -/
def Context.Faults (cx : Context) (start G : Facts) : Prop :=
  ∃ c, cx.stratum.Has c ∧ c.clause.Faults (.over cx.functions start G)

/-- A task reads nothing but facts. -/
theorem Task.Sound.faults (sound : task.Sound cx start G)
    (h : task.clause.clause.Faults (task.scene cx start G)) : cx.Faults start G := by
  refine ⟨task.clause, sound.has, h.imp rfl ⟨.refl _, fun g hg x hx => ?_, fun _ _ _ _ h => h⟩⟩
  rw [Scene.offers_over]
  exact sound.offers g hg x hx

namespace World.OnWay

variable {world : World}

/-- What is left when a task stops. -/
theorem of_safe {w : Worker} (h : Work.Safe cx rules start G owed task others w)
    (sound : ∀ t ∈ others, t.Sound cx start G) :
    w.world.OnWay cx [] start G (w.spawned ++ others) :=
  ⟨h.store, fun t ht => (List.mem_append.1 ht).elim (h.spawned t) (sound t),
    fun r x hx => h.pending r x (.inr hx), .nil⟩

variable (diff : cx.stratum.Differential cx.functions [] start) (ends : cx.Ends start G)
include diff ends

/-- **A task keeps its agenda on the way**, however it ends; if it fails, its clause faults. -/
theorem ran (failed : Bool) (h : world.OnWay cx [] start G (task :: others))
    (shaped : Store.Shaped world.store) :
    (task.run cx failed world).world.OnWay cx [] start G
        ((task.run cx failed world).spawned ++ others) ∧
      Store.Shaped (task.run cx failed world).world.store ∧
      ∀ e, (task.run cx failed world).result = .error e →
        task.clause.clause.Faults (task.scene cx start G) := by
  have sound := h.sound task (List.mem_cons_self ..)
  have others : ∀ t ∈ others, t.Sound cx start G := fun t ht => h.sound t (List.mem_cons_of_mem _ ht)
  cases hresult : (task.run cx failed world).result with
  | ok u =>
    obtain ⟨w, hwork, hrun⟩ := Task.run_ok hresult
    rw [hrun]
    have did := Work.work_did diff ends sound ends.within h.safe rfl h.store.above hwork
    exact ⟨of_safe did.safe others, did.grows.shaped shaped, nofun⟩
  | error e =>
    obtain ⟨_, w, hwork, hrun⟩ := Task.run_error hresult
    rw [hrun]
    have broke := Work.work_broke sound diff ends h.safe shaped rfl hwork
    exact ⟨of_safe broke.safe others, broke.grows.shaped shaped, fun _ _ => broke.faults⟩

end World.OnWay

/-! ## Rounds, however they end -/

namespace Evaluation

variable {schedule : Schedule} {budget : Nat} {e e' : Evaluation}

/-- **A round stays on the way**, and a fault in it is one of a clause. -/
theorem round_halts (diff : e.context.stratum.Differential e.context.functions [] start)
    (ends : e.context.Ends start G) {result : Except Fault Unit}
    (h : round schedule budget tasks e = some (e', result))
    (onWay : World.OnWay e.context [] start G { e.world with delta := ∅ } tasks)
    (shaped : Store.Shaped e.world.store) :
    e'.context = e.context ∧ e'.world.OnWay e.context [] start G [] ∧
      Store.Shaped e'.world.store ∧ ∀ f, result = .error f → e.context.Faults start G := by
  obtain ⟨a, hdrain, hresult, rfl⟩ := exists_agenda h
  have turned : World.OnWay e.context [] start G { e.world with delta := ∅ } tasks.reverse :=
    onWay.congr fun t => List.mem_reverse
  obtain ⟨⟨h', shaped', faults⟩, hwaiting⟩ := Agenda.drain_invariant
    (P := fun a => a.world.OnWay e.context [] start G a.waiting ∧ Store.Shaped a.world.store ∧
      (a.fault ≠ none → e.context.Faults start G))
    (fun a i task hi ⟨h, shaped, faults⟩ => by
      have perm := Agenda.perm_waiting hi
      have sound := h.sound task (perm.mem_iff.1 (List.mem_cons_self ..))
      obtain ⟨h, shaped, faults'⟩ :=
        (h.congr fun t => perm.mem_iff).ran diff ends a.fault.isSome shaped
      have told (hfault : (a.runAt (Task.run e.context) i).fault ≠ none) :
          e.context.Faults start G :=
        (Agenda.exists_error_of_fault_runAt hi hfault).elim faults fun ⟨f, hf⟩ =>
          sound.faults (faults' f hf)
      rw [Agenda.runAt, hi] at told ⊢
      exact ⟨h, shaped, told⟩)
    hdrain ⟨⟨turned.store, turned.sound, turned.delayed, turned.covered⟩, shaped, nofun⟩
  rw [hwaiting] at h'
  refine ⟨rfl, h', shaped', fun f hf => faults ?_⟩
  rintro hnone
  rw [Agenda.result, hnone] at hresult
  cases hresult.trans hf

/-- **However an evaluation ends**, its store lies between the facts at the start and those in the
end, and a fault is one of a clause. -/
theorem halts (diff : e.context.stratum.Differential e.context.functions [] start)
    (ends : e.context.Ends start G) (store : Store.Between start G e.world.store)
    (shaped : Store.Shaped e.world.store) {result : Except Fault Summary}
    (h : run schedule budget e = some (e', result)) :
    Store.Between start G e'.world.store ∧ Store.Shaped e'.world.store ∧
      ∀ f, result = .error f → e.context.Faults start G := by
  obtain ⟨⟨_, onWay, shaped⟩, faults⟩ := run_invariant
    (P := fun context world => context = e.context ∧ world.OnWay e.context [] start G [] ∧
      Store.Shaped world.store) (Q := e.context.Faults start G) h
    (fun e₁ r hround => by
      obtain ⟨context, onWay, shaped, faults⟩ := round_halts
        (e := { e with phase := .baseRound }) diff ends hround (.base diff ends store) shaped
      exact ⟨⟨context, onWay, shaped⟩, faults⟩)
    (fun e₁ e₂ number r ⟨context, onWay, shaped⟩ hround => by
      obtain ⟨context', onWay', shaped', faults⟩ := round_halts
        (e := { e₁ with phase := .recursiveRound number }) (context ▸ diff) (context ▸ ends) hround
        (context ▸ onWay.seeded diff ends) shaped
      exact ⟨⟨context'.trans context, context ▸ onWay', shaped'⟩, context ▸ faults⟩)
  exact ⟨onWay.store, shaped, faults⟩

end Evaluation

end Datalog
