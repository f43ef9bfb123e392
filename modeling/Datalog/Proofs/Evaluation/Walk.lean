import Datalog.Proofs.Evaluation.Backtracking
import Datalog.Proofs.Evaluation.Ledger

/-!
# Proofs/Evaluation/Walk — tasks that walk

A task that goes on at a position of its clause's body ends the same way, and reports the same, if
it walks there (`Task.Placed.walk`).  The tasks that it makes are of that kind too, so a whole line
can be run by walking (`Task.walkLine_of_drain`).
-/

namespace Datalog

namespace Work

variable {cx : Context} {task : Task} {failed : Bool} {start position : Nat} {place : Place}
  {w w' : Worker} {reports : List Report} {rest slots : List Slot} {slot : Slot} {goal : Goal}
  {tuples : List Tuple}

/-! ## Going on -/

/-- **Back at its start** the walk ends. -/
theorem Tracks.ends {result : EStateM.Result Abort Worker Unit}
    (h : Tracks cx task failed start place w start reports result) :
    Ends cx task failed start place w (result, reports) := by
  cases result with
  | ok u v =>
    obtain ⟨cursors, _, _, leads⟩ := h
    have home : turn cx task failed start ⟨start, .backtracking, cursors⟩ v = .ok none v := by
      rw [turn, if_pos rfl]
      rfl
    exact reports.append_nil ▸ leads.ends (ends_of_turn_ok home)
  | error e v => exact h

/-- **Walking on** from a lookup is going on with the search there. -/
theorem walkOn_eq (body : task.clause.body[start]? = some slot)
    (beyond : task.clause.body.drop (start + 1) = rest)
    (positive : slot.step.positiveGoal? = some goal) (tuples : List Tuple) (w : Worker) :
    ∃ enough, ∀ turns ≥ enough, walkOn cx task failed turns start tuples w =
      some (resume cx task failed goal rest tuples w,
        resumeReports cx task failed goal rest tuples w) := by
  have inside := (List.getElem?_eq_some_iff.1 body).1
  let cursors : List (Option (List Tuple)) :=
    (List.replicate task.clause.body.length none).set start (some tuples)
  have length : cursors.length = task.clause.body.length :=
    List.length_set.trans List.length_replicate
  have left : (cursors[start]?.join).getD [] = tuples := by
    rw [List.getElem?_set_self (List.length_replicate.symm ▸ inside)]
    rfl
  have tracks : Tracks cx task failed start ⟨start + 1, .backtracking, cursors⟩ w start
      (resumeReports cx task failed goal rest tuples w)
      (searchEach cx task failed goal rest tuples w) :=
    tracks_searchEach body positive le_rfl
      (fun length => tracks_search beyond (Nat.le_succ start) length) length left
  obtain ⟨k, walks⟩ := tracks.ends
  refine ⟨k, fun turns enough => ?_⟩
  obtain ⟨more, rfl⟩ := Nat.exists_eq_add_of_le' enough
  exact congrArg (Option.map _) (walks more)

/-! ## Setting out -/

/-- No batch is empty. -/
theorem nil_notMem_batches (size : Nat) (xs : List Tuple) : [] ∉ batches size xs := by
  intro h
  obtain ⟨i, hi, empty⟩ := List.mem_map.1 h
  have positive : 0 < max size 1 := Nat.lt_of_lt_of_le Nat.one_pos (Nat.le_max_right ..)
  have within : (i + 1) * max size 1 ≤ xs.length + max size 1 - 1 :=
    (Nat.le_div_iff_mul_le positive).1 (Nat.succ_le_of_lt (List.mem_range.1 hi))
  rw [List.take_eq_nil_iff, List.drop_eq_nil_iff] at empty
  rw [Nat.succ_mul] at within
  omega

/-- Where nothing is kept, nothing was found and nothing is shared out. -/
theorem shareOut_nil (ok : shareOut cx task slot goal rest tuples w = .ok [] w') : w = w' := by
  rw [shareOut] at ok
  cases h : batches (batchSize cx slot) tuples with
  | nil =>
    rw [h] at ok
    exact (Outcome.pure_ok_iff.1 ok).2
  | cons batch others =>
    rw [h] at ok
    obtain ⟨_, _, _, ok⟩ := Outcome.bind_ok_iff.1 ok
    obtain ⟨_, _, _, ok⟩ := Outcome.bind_ok_iff.1 ok
    obtain ⟨rfl, _⟩ := Outcome.pure_ok_iff.1 ok
    exact (nil_notMem_batches _ _ (h ▸ List.mem_cons_self ..)).elim

/-- **Recording twice** is recording once. -/
theorem record_again {clause : PlannedClause} (ok : record cx clause w = .ok () w') :
    record cx clause w' = .ok () w' := by
  rw [record] at ok ⊢
  split
  · next asked =>
    rw [if_pos asked] at ok
    obtain rfl := Outcome.modify_ok_iff.1 ok
    refine Outcome.modify_ok_iff.2 ?_
    simp
  · rfl

/-- **Nothing found**: going on with nothing leaves everything as it is. -/
theorem resume_nil (batch : w.batch = []) (recorded : record cx task.clause w = .ok () w) :
    resume cx task failed goal rest [] w = .ok () w := by
  have idle : setOff cx task failed w = .ok () w := by
    rw [setOff, Outcome.get_bind, batch]
    rfl
  change (setOff cx task failed >>= fun _ => record cx task.clause) w = _
  rw [Outcome.bind_of_ok idle, recorded]

/-- The first positive lookup of a task, which is recorded. -/
abbrev finding (cx : Context) (task : Task) (slot : Slot) (goal : Goal) (rest : List Slot) :
    Work (List Tuple) := do
  let tuples ← within slot.step.blame (matching cx task slot goal)
  record cx task.clause
  shareOut cx task slot goal rest tuples

/-- **If it finds nothing**, no more than recording has been done. -/
theorem finding_nil (ok : finding cx task slot goal rest w = .ok [] w') (batch : w.batch = []) :
    resume cx task failed goal rest [] w' = .ok () w' := by
  obtain ⟨tuples, w₁, found, ok⟩ := Outcome.bind_ok_iff.1 ok
  obtain ⟨rfl, _⟩ := matching_ok (within_ok_iff.1 found)
  obtain ⟨_, w₂, recorded, ok⟩ := Outcome.bind_ok_iff.1 ok
  obtain rfl := shareOut_nil ok
  exact resume_nil ((record_ok recorded).batch.trans batch) (record_again recorded)

/-- **Setting out for a lookup**: the task goes on from there, if there is anything to go on with. -/
theorem setOut_lookup (body : task.clause.body[position]? = some slot)
    (beyond : task.clause.body.drop (position + 1) = rest)
    (positive : slot.step.positiveGoal? = some goal) (batch : w.batch = []) :
    ∃ enough, ∀ turns ≥ enough, setOut cx task failed turns position (slot :: rest) w =
      some (approach cx task failed (slot :: rest) w,
        approachReports cx task failed (slot :: rest) w) := by
  have lookUp : (do
      let tuples ← within slot.step.blame (matching cx task slot goal)
      record cx task.clause
      fork cx task slot goal rest tuples : Work (Option (List Tuple))) =
      finding cx task slot goal rest >>= fun first =>
        pure (if first.isEmpty then none else some first) := by
    simp only [bind_assoc, fork]
  have work : approach cx task failed (slot :: rest) =
      finding cx task slot goal rest >>= resume cx task failed goal rest := by
    simp only [approach, positive, bind_assoc]
  have log : approachReports cx task failed (slot :: rest) =
      reportsAfter (finding cx task slot goal rest) (resumeReports cx task failed goal rest) := by
    rw [approachReports, positive]
  simp only [setOut, positive, lookUp, work, log, reportsAfter]
  cases h : finding cx task slot goal rest w with
  | ok first w' =>
    rw [Outcome.bind_of_ok h, Outcome.bind_of_ok h]
    cases first with
    | nil =>
      rw [finding_nil h batch]
      exact ⟨0, fun turns _ => rfl⟩
    | cons tuple tuples => exact walkOn_eq body beyond positive (tuple :: tuples) w'
  | error e w' =>
    rw [Outcome.bind_of_error h, Outcome.bind_of_error h]
    exact ⟨0, fun turns _ => rfl⟩

/-- **Setting out** is the approach. -/
theorem setOut_eq (body : task.clause.body.drop position = slots) (batch : w.batch = []) :
    ∃ enough, ∀ turns ≥ enough, setOut cx task failed turns position slots w =
      some (approach cx task failed slots w, approachReports cx task failed slots w) := by
  induction slots generalizing position w with
  | nil => exact ⟨0, fun turns _ => rfl⟩
  | cons slot rest ih =>
    have here : task.clause.body[position]? = some slot := by
      rw [← List.head?_drop, body]
      rfl
    have beyond : task.clause.body.drop (position + 1) = rest := by
      rw [← List.tail_drop, body]
      rfl
    cases positive : slot.step.positiveGoal? with
    | some goal => exact setOut_lookup here beyond positive batch
    | none =>
      have work : approach cx task failed (slot :: rest) =
          within slot.step.blame (perform cx slot) >>= fun goesOn =>
            if goesOn then approach cx task failed rest else record cx task.clause := by
        rw [approach, positive]
      have log : approachReports cx task failed (slot :: rest) =
          reportsAfter (within slot.step.blame (perform cx slot)) fun goesOn =>
            if goesOn then approachReports cx task failed rest else fun _ => [] := by
        rw [approachReports, positive]
      simp only [setOut, positive, work, log, reportsAfter]
      cases h : within slot.step.blame (perform cx slot) w with
      | ok goesOn w' =>
        rw [Outcome.bind_of_ok h]
        have blind : Blind fun w => w.batch = [] :=
          ⟨fun idles empty => idles.batch.trans empty, fun _ empty => empty⟩
        have batch' := Keeps.perform blind w goesOn w' batch (within_ok_iff.1 h)
        cases goesOn with
        | true => exact ih beyond batch'
        | false => exact ⟨0, fun turns _ => rfl⟩
      | error e w' =>
        rw [Outcome.bind_of_error h]
        exact ⟨0, fun turns _ => rfl⟩

/-! ## The tasks that go on -/

/-- **The tasks made that go on** have a property. -/
def Follows (P : Task → Prop) (w : Worker) : Prop := ∀ t ∈ w.spawned, t.resumes = true → P t

namespace Follows

variable {P : Task → Prop}

theorem of_spawned (h : Follows P w) (same : w'.spawned = w.spawned) : Follows P w' := by
  rw [Follows, same]
  exact h

/-- Tasks that are set off do not go on. -/
theorem fired (h : Follows P w) {seed : List Tuple}
    (spawned : w'.spawned = (task.fired cx seed).reverse ++ w.spawned) : Follows P w' := by
  rw [Follows, spawned]
  refine List.forall_mem_append.2 ⟨fun t ht resumes => ?_, h⟩
  exact (Task.not_resumes_of_fired (List.mem_reverse.1 ht) resumes).elim

theorem steady (cx : Context) (failed : Bool) (suffixes : ∀ {slot goal rest b tuples},
    slot :: rest <:+ task.remaining → slot.step.positiveGoal? = some goal →
      P (suffix task goal rest b tuples)) :
    Steady cx task failed (Follows P) (fun _ => True) fun _ _ => True := by
  refine .of_blind ⟨fun idles h => h.of_spawned idles.spawned, fun _ h => h.of_spawned rfl⟩ ?_
    (fun w hw => ⟨fun u w' ok => ⟨?_, trivial⟩, fun e w' h => ?_⟩) fun w u w' hw ok => ?_
  · intro w slot goal rest b others left positive hw
    refine List.forall_mem_append.2 ⟨fun t ht _ => ?_, hw⟩
    obtain ⟨ts, _, rfl⟩ := List.mem_map.1 (List.mem_reverse.1 ht)
    exact suffixes left positive
  · obtain ⟨tuple, _, ⟨_, idles⟩ | ⟨_, _, w₁, kept, idles⟩⟩ := conclude_ok ok
    · exact hw.of_spawned idles.spawned
    · refine of_spawned ?_ idles.spawned
      cases kept with
      | idle | batched | delayed => exact hw.of_spawned rfl
      | fired => exact hw.fired rfl
  · obtain ⟨rfl, _⟩ | ⟨tuple, m, _, _, rfl, _⟩ := conclude_error h
    · exact ⟨hw, trivial⟩
    · exact ⟨hw.of_spawned rfl, trivial⟩
  · obtain ⟨_, rfl⟩ | ⟨_, idles⟩ := setOff_ok ok
    · exact hw
    · exact hw.fired idles.spawned

end Follows

end Work

namespace Task

variable {cx : Context} {task t : Task} {failed : Bool} {world : World}

/-- **What a task hands on** goes on past a positive lookup, with the rest of the body. -/
theorem of_runLine {P : Task → Prop} (suffixes : ∀ {slot goal rest b tuples},
    slot :: rest <:+ task.remaining → slot.step.positiveGoal? = some goal →
      P (Work.suffix task goal rest b tuples))
    (h : t ∈ (task.runLine cx failed world).spawned) : P t := by
  have none : Work.Follows P (task.worker world) := nofun
  obtain ⟨w, follows, _, spawned, _⟩ :=
    run_maintains ((Work.Follows.steady cx failed suffixes).work fun _ _ _ _ => trivial) none
  obtain ⟨ht, resumes⟩ := List.mem_filter.1 h
  exact follows t (spawned ▸ ht) resumes

/-- **A task that goes on** does so past a positive lookup of its clause's body. -/
def Placed (task : Task) : Prop := ∀ r, task.resumption = some r →
  ∃ pre slot, task.clause.body = pre ++ slot :: r.rest ∧ slot.step.positiveGoal? = some r.goal

theorem Placed.of_runLine (placed : task.Placed)
    (h : t ∈ (task.runLine cx failed world).spawned) : t.Placed := by
  refine Task.of_runLine (fun {slot goal rest b tuples} left positive r hr => ?_) h
  cases hr
  have whole : task.remaining <:+ task.clause.body := by
    rw [remaining]
    cases hr : task.resumption with
    | none => exact List.suffix_rfl
    | some r =>
      obtain ⟨pre, slot, body, _⟩ := placed r hr
      exact ⟨pre ++ [slot], by simp [body]⟩
  obtain ⟨pre, body⟩ := left.trans whole
  exact ⟨pre, slot, body.symm, positive⟩

theorem run_eq_outcome :
    task.run cx failed world = task.outcome (task.work cx failed (task.worker world)) := by
  rw [run_eq]
  cases task.work cx failed (task.worker world) <;> rfl

/-- **A task that walks** ends as it does by searching, and reports the same. -/
theorem Placed.walk (placed : task.Placed) (cx : Context) (failed : Bool) (world : World) :
    ∃ enough, ∀ turns ≥ enough, task.walk cx turns failed world =
      some (task.run cx failed world, task.reports cx failed world) := by
  cases hr : task.resumption with
  | none =>
    obtain ⟨enough, walks⟩ : ∃ enough, ∀ turns ≥ enough,
        Work.setOut cx task failed turns 0 task.clause.body { world, bindings := ∅ } = some _ :=
      Work.setOut_eq List.drop_zero rfl
    refine ⟨enough, fun turns h => ?_⟩
    rw [Task.walk, run_eq_outcome, work, reports, worker, hr]
    exact congrArg (Option.map _) (walks turns h)
  | some r =>
    obtain ⟨pre, slot, body, positive⟩ := placed r hr
    have start : task.clause.body.length - (r.rest.length + 1) = pre.length := by simp [body]
    have here : task.clause.body[pre.length]? = some slot := by simp [body]
    have beyond : task.clause.body.drop (pre.length + 1) = r.rest := by simp [body]
    obtain ⟨enough, walks⟩ : ∃ enough, ∀ turns ≥ enough, Work.walkOn cx task failed turns
        pre.length r.tuples { world, bindings := r.bindings } = some _ :=
      Work.walkOn_eq here beyond positive r.tuples _
    refine ⟨enough, fun turns h => ?_⟩
    rw [Task.walk, run_eq_outcome, work, reports, worker, hr]
    dsimp only
    rw [start]
    exact congrArg (Option.map _) (walks turns h)

/-! ## The line -/

variable {policy : Policy Task World} {turns budget : Nat} {a last : Agenda Task World}

theorem walkLine_nil (done : a.waiting.isEmpty = true) :
    walkLine cx policy turns budget a = some (a, []) := by
  cases budget <;> rw [walkLine, if_pos done]

/-- **One task of the line** walks, and then the others. -/
theorem walkLine_cons {reports : List Report}
    (picked : a.waiting[policy a % a.waiting.length]? = some t)
    (walks : t.walk cx turns a.fault.isSome a.world = some (t.run cx a.fault.isSome a.world, reports)) :
    walkLine cx policy turns (budget + 1) a =
      (walkLine cx policy turns budget (a.step (runLine cx) policy)).map fun last =>
        (last.1, reports ++ last.2) := by
  have waits : ¬a.waiting.isEmpty = true := fun none => by
    rw [List.isEmpty_iff.1 none] at picked
    cases picked
  have stepped : a.step (fun _ _ _ => { t.run cx a.fault.isSome a.world with
      spawned := (t.run cx a.fault.isSome a.world).spawned.filter resumes }) policy =
        a.step (runLine cx) policy := by
    rw [Agenda.step, Agenda.step, Agenda.runAt, Agenda.runAt, picked]
    rfl
  rw [walkLine, if_neg waits]
  simp only [picked, walks, Option.bind_eq_bind, Option.bind_some]
  rw [stepped]
  cases walkLine cx policy turns budget (a.step (runLine cx) policy) <;> rfl

/-- **What waits on the line** stays of that kind. -/
theorem placed_of_step (placed : ∀ t ∈ a.waiting, t.Placed)
    (picked : a.waiting[policy a % a.waiting.length]? = some t) :
    ∀ t ∈ (a.step (runLine cx) policy).waiting, t.Placed := by
  rw [Agenda.step, Agenda.runAt, picked]
  refine List.forall_mem_append.2 ⟨fun u hu => ?_, fun u hu => placed u (List.mem_of_mem_eraseIdx hu)⟩
  exact (placed t (List.mem_of_getElem? picked)).of_runLine hu

/-- **A line that is run by walking** ends as it does by searching, and reports the same. -/
theorem walkLine_of_drain (placed : ∀ t ∈ a.waiting, t.Placed)
    (ran : Agenda.drain (runLine cx) policy budget a = some last) :
    ∃ enough, ∀ turns ≥ enough, ∀ more ≥ budget, walkLine cx policy turns more a =
      some (last, Agenda.logged (reports cx) (runLine cx) policy budget a) := by
  induction budget generalizing a with
  | zero =>
    rw [Agenda.drain] at ran
    split at ran
    · next hempty =>
      cases ran
      exact ⟨0, fun turns _ more _ => walkLine_nil hempty⟩
    · cases ran
  | succ budget ih =>
    rw [Agenda.drain] at ran
    split at ran
    · next hempty =>
      cases ran
      refine ⟨0, fun turns _ more _ => ?_⟩
      rw [walkLine_nil hempty, Agenda.logged, List.isEmpty_iff.1 hempty]
      rfl
    · next hempty =>
      have hpos : 0 < a.waiting.length := List.length_pos_iff.2 (by simpa using hempty)
      obtain ⟨t, picked⟩ : ∃ t, a.waiting[policy a % a.waiting.length]? = some t :=
        ⟨_, List.getElem?_eq_getElem (Nat.mod_lt _ hpos)⟩
      obtain ⟨enough, walks⟩ :=
        (placed t (List.mem_of_getElem? picked)).walk cx a.fault.isSome a.world
      obtain ⟨enough', others⟩ := ih (placed_of_step placed picked) ran
      refine ⟨max enough enough', fun turns h more h' => ?_⟩
      obtain ⟨more, rfl⟩ := Nat.exists_eq_add_of_le' (Nat.one_le_of_lt h')
      rw [walkLine_cons picked (walks turns (le_of_max_le_left h)),
        others turns (le_of_max_le_right h) more (Nat.le_of_succ_le_succ h'), Agenda.logged, picked]
      rfl

end Task

end Datalog
