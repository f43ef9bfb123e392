import Datalog.Meaning.Reports
import Datalog.Proofs.Evaluation.Conclude
import Datalog.Proofs.Evaluation.Run

/-!
# Proofs/Evaluation/Reports — what is stored, counted and echoed is what was reported

A task changes the store, the counters of facts and the echoed lines only where it concludes its
head, and there as its report says (`Work.Books`).  So what an agenda has done to them can be read
off the reports of its tasks, whatever the policy and however the tasks end
(`Agenda.booked_of_drain`), and the same goes for an evaluation.
-/

namespace Datalog

/-! ## A store and the reports that it receives -/

/-- **The store receives the reports** one after the other: each says what became of its fact. -/
inductive Store.Receives : Store → List Report → Store → Prop
  | nil {s : Store} : Receives s [] s
  | cons {s s' : Store} {report : Report} {reports : List Report}
      (entry : report.insertion = (s.add report.relation report.tuple).2)
      (rest : Receives (s.add report.relation report.tuple).1 reports s') :
      Receives s (report :: reports) s'

namespace Store

variable {s s' s'' : Store} {r : Relation} {tuple : Tuple}

namespace Receives

variable {reports more : List Report}

theorem append (h : s.Receives reports s') (h' : s'.Receives more s'') :
    s.Receives (reports ++ more) s'' := by
  induction h with
  | nil => exact h'
  | cons entry _ ih => exact .cons entry (ih h')

/-- Every report adds its fact. -/
theorem eq_addAll (h : s.Receives reports s') : s' = s.addAll (reports.map Report.fact) := by
  induction h with
  | nil => rfl
  | cons _ _ ih => exact ih

theorem holds_iff (h : s.Receives reports s') {f : Relation × Tuple} :
    s'.Holds f.1 f.2 ↔ s.Holds f.1 f.2 ∨ f ∈ reports.map Report.fact := by
  rw [h.eq_addAll, holds_addAll_iff]

/-- **A fact is reported as stored once** if it is there now and was not before, and never
otherwise. -/
theorem stored_once (h : s.Receives reports s') : (Report.stored reports).Nodup ∧
    ∀ f, f ∈ Report.stored reports ↔ s'.Holds f.1 f.2 ∧ ¬s.Holds f.1 f.2 := by
  induction h with
  | nil => simp [Report.stored]
  | @cons s s' report reports entry rest ih =>
    obtain ⟨nodup, mem_iff⟩ := ih
    by_cases old : s.Holds report.relation report.tuple
    · have present : report.insertion = .present := entry.trans (add_eq_present_iff.2 old)
      have same : Report.stored (report :: reports) = Report.stored reports := by
        rw [Report.stored, List.filter_cons_of_neg (by simp [present]), Report.stored]
      rw [add_of_mem old] at mem_iff
      rw [same]
      exact ⟨nodup, mem_iff⟩
    · have new : report.insertion ≠ .present := fun h =>
        old (add_eq_present_iff.1 (entry.symm.trans h))
      have first : Report.stored (report :: reports) = report.fact :: Report.stored reports := by
        rw [Report.stored, List.filter_cons_of_pos (by simp [new]), Report.stored, List.map_cons]
      have held : (s.add report.relation report.tuple).1.Holds report.fact.1 report.fact.2 :=
        holds_add_iff.2 (.inr ⟨rfl, rfl⟩)
      rw [first, List.nodup_cons]
      refine ⟨⟨fun again => ((mem_iff _).1 again).2 held, nodup⟩, fun f => ?_⟩
      rw [List.mem_cons, mem_iff, holds_add_iff]
      constructor
      · rintro (rfl | ⟨now, before⟩)
        · exact ⟨rest.holds_iff.2 (.inl held), old⟩
        · exact ⟨now, fun h => before (.inl h)⟩
      · rintro ⟨now, before⟩
        by_cases hf : f = report.fact
        · exact .inl hf
        · refine .inr ⟨now, fun h => ?_⟩
          obtain h | ⟨hr, ht⟩ := h
          · exact before h
          · exact hf (Prod.ext hr ht)

end Receives

end Store

namespace Report

variable {reports more : List Report}

theorem stored_append : stored (reports ++ more) = stored reports ++ stored more := by
  simp [stored]

theorem added_append : added (reports ++ more) = added reports ++ added more := by
  simp [added]

theorem repeated_append : repeated (reports ++ more) = repeated reports ++ repeated more := by
  simp [repeated]

end Report

/-! ## The books of a world -/

/-- **The world has booked the reports**: the store has received them, and what is counted and
echoed is what they say. -/
structure World.Booked (cx : Context) (before : World) (reports : List Report) (after : World) :
    Prop where
  store : before.store.Receives reports after.store
  newFacts : after.counters.newFacts =
    before.counters.newFacts + (Report.added reports).length
  duplicates : cx.settings.recordWork = true → after.counters.duplicates =
    before.counters.duplicates + (Report.repeated reports).length
  echoed : after.echoed =
    (((Report.added reports).filter (·.1 ∈ cx.tracked)).map Report.line).reverse ++ before.echoed

namespace World.Booked

variable {cx : Context} {before middle after : World} {reports more : List Report}

/-- Nothing reported is nothing changed. -/
theorem of_eq (store : after.store = before.store)
    (newFacts : after.counters.newFacts = before.counters.newFacts)
    (duplicates : after.counters.duplicates = before.counters.duplicates)
    (echoed : after.echoed = before.echoed) : before.Booked cx [] after :=
  ⟨store ▸ .nil, newFacts, fun _ => duplicates, echoed⟩

theorem refl (world : World) : world.Booked cx [] world := of_eq rfl rfl rfl rfl

theorem trans (h : before.Booked cx reports middle) (h' : middle.Booked cx more after) :
    before.Booked cx (reports ++ more) after where
  store := h.store.append h'.store
  newFacts := by
    rw [h'.newFacts, h.newFacts, Report.added_append, List.length_append, Nat.add_assoc]
  duplicates set := by
    rw [h'.duplicates set, h.duplicates set, Report.repeated_append, List.length_append,
      Nat.add_assoc]
  echoed := by
    rw [h'.echoed, h.echoed, Report.added_append, List.filter_append, List.map_append,
      List.reverse_append, List.append_assoc]

theorem silent (h : before.Booked cx reports middle) (h' : middle.Booked cx [] after) :
    before.Booked cx reports after :=
  List.append_nil reports ▸ h.trans h'

end World.Booked

/-! ## The books of a task -/

namespace Work

variable {α β : Type} {cx : Context} {task : Task} {failed : Bool}

/-- The worker that the work leaves behind, however it ends. -/
def left (work : Work α) (w : Worker) : Worker :=
  match work w with
  | .ok _ w' => w'
  | .error _ w' => w'

/-- **The work books what it reports**, however it ends. -/
def Books (cx : Context) (work : Work α) (log : Log) : Prop :=
  ∀ w : Worker, w.world.Booked cx (log w) (left work w).world

/-- Work that reports nothing and leaves the books alone. -/
abbrev Mute (cx : Context) (work : Work α) : Prop := Books cx work fun _ => []

theorem left_bind {x : Work α} {f : α → Work β} {w : Worker} : left (x >>= f) w =
    match x w with
    | .ok a w' => left (f a) w'
    | .error _ w' => w' := by
  change (match EStateM.bind x f w with | .ok _ w' => w' | .error _ w' => w') = _
  unfold EStateM.bind
  cases x w <;> rfl

theorem reportsAfter_nil {x : Work α} : (reportsAfter x fun _ _ => []) = fun _ => [] := by
  funext w
  rw [reportsAfter]
  split <;> rfl

namespace Books

variable {log : Log}

/-- **What comes after mute work** is all that is booked. -/
theorem after {x : Work α} {f : α → Work β} {logs : α → Log} (hx : Mute cx x)
    (hf : ∀ a, Books cx (f a) (logs a)) : Books cx (x >>= f) (reportsAfter x logs) := by
  intro w
  have first := hx w
  rw [left_bind, reportsAfter]
  rw [left] at first
  cases h : x w with
  | ok a w' =>
    rw [h] at first
    exact first.trans (hf a w')
  | error e w' =>
    rw [h] at first
    exact first

/-- Work for one thing after the other. -/
theorem each {work : α → Work Unit} {logs : α → Log} (h : ∀ a, Books cx (work a) (logs a)) :
    ∀ as : List α, Books cx (as.forM work) (reportsEach work logs as)
  | [] => fun w => .refl w.world
  | a :: as => by
    intro w
    have first := h a w
    change World.Booked cx w.world
      (logs a w ++ reportsAfter (work a) (fun _ => reportsEach work logs as) w)
      (left (work a >>= fun _ => as.forM work) w).world
    rw [left_bind, reportsAfter]
    rw [left] at first
    cases hwork : work a w with
    | ok u w' =>
      rw [hwork] at first
      exact first.trans (each h as w')
    | error e w' =>
      rw [hwork] at first
      simpa using first

theorem within {context : Fault → Fault} {x : Work α} (h : Books cx x log) :
    Books cx (within context x) log := by
  intro w
  have same := h w
  rw [left] at same ⊢
  rw [Work.within]
  cases hx : x w <;> rw [hx] at same <;> exact same

end Books

/-! ### Work that reports nothing -/

namespace Mute

theorem bind {x : Work α} {f : α → Work β} (hx : Mute cx x) (hf : ∀ a, Mute cx (f a)) :
    Mute cx (x >>= f) := by
  have h := Books.after hx hf
  rwa [reportsAfter_nil] at h

theorem pure {a : α} : Mute cx (Pure.pure a : Work α) := fun w => .refl w.world

theorem got : Mute cx (get : Work Worker) := fun w => .refl w.world

theorem thrown {e : Abort} : Mute cx (throw e : Work α) := fun w => .refl w.world

theorem changed {f : Worker → Worker} (h : ∀ w : Worker, w.world.Booked cx [] (f w).world) :
    Mute cx (modify f : Work PUnit) := h

theorem ite {p : Prop} [Decidable p] {x y : Work α} (hx : Mute cx x) (hy : Mute cx y) :
    Mute cx (if p then x else y) := by
  split
  · exact hx
  · exact hy

theorem forM {x : β → Work Unit} (hx : ∀ b, Mute cx (x b)) : ∀ {bs : List β}, Mute cx (bs.forM x)
  | [] => pure
  | b :: _ => bind (hx b) fun _ => forM hx

theorem ofExcept {result : Except Abort α} : Mute cx (ofExcept result) := by
  cases result with
  | ok a => exact pure
  | error e => exact thrown

theorem spawn {t : Task} : Mute cx (spawn t) :=
  bind (changed fun w => .refl w.world) fun _ => changed fun _ => .of_eq rfl rfl rfl rfl

theorem record {clause : PlannedClause} : Mute cx (record cx clause) :=
  ite (changed fun _ => .of_eq rfl rfl rfl rfl) pure

theorem take {goal : Goal} {tuple : Tuple} : Mute cx (take cx goal tuple) := by
  have binds : Mute cx (modify fun w : Worker =>
      { w with bindings := goal.bind tuple w.bindings }) := changed fun w => .refl w.world
  rw [Work.take]
  split
  · exact bind (changed fun _ => .of_eq rfl rfl rfl rfl) fun _ => binds
  · exact binds

theorem matching {slot : Slot} {goal : Goal} : Mute cx (matching cx task slot goal) := by
  refine bind got fun w => bind ofExcept fun key => ?_
  split <;> exact pure

theorem perform {slot : Slot} : Mute cx (perform cx slot) := by
  intro w
  rw [left, perform_eq]
  rcases slot.perform cx.functions w.world.store w.bindings with e | (_ | b) <;>
    exact .refl w.world

theorem shareOut {slot : Slot} {goal : Goal} {rest : List Slot} {tuples : List Tuple} :
    Mute cx (shareOut cx task slot goal rest tuples) := by
  rw [Work.shareOut]
  split
  · exact pure
  · exact bind got fun _ => bind (forM fun _ => spawn) fun _ => pure

theorem setOff : Mute cx (setOff cx task failed) := by
  refine bind got fun w => ite pure (bind (changed fun w => .refl w.world) fun _ => ?_)
  exact forM fun _ => spawn

theorem keep {tuple : Tuple} : Mute cx (keep cx task failed tuple) := by
  refine ite (ite (bind (changed fun w => .refl w.world) fun _ => ?_) ?_) pure
  · exact bind got fun _ => ite setOff pure
  · exact changed fun _ => .of_eq rfl rfl rfl rfl

end Mute

/-! ### Work that reports -/

namespace Books

variable {log : Log}

/-- **A fact that is entered** is counted and echoed if it is new and fits, counted otherwise if
it was there, and only stored if it does not fit. -/
theorem enter {w : Worker} {tuple : Tuple} {b : Bindings} :
    w.world.Booked cx [{ relation := task.clause.head.relation, tuple, bindings := b
                         insertion := (w.world.store.add task.clause.head.relation tuple).2 }]
      (left (enter cx task failed tuple) w).world := by
  have received : w.world.store.Receives
      [{ relation := task.clause.head.relation, tuple, bindings := b
         insertion := (w.world.store.add task.clause.head.relation tuple).2 }]
      (w.world.store.add task.clause.head.relation tuple).1 := .cons rfl .nil
  rw [Work.enter, left_bind, store_eq]
  cases hadd : (w.world.store.add task.clause.head.relation tuple).2 with
  | added =>
    rw [hadd] at received
    -- keeping the tuple is mute, so the books are those of the worker that has echoed it
    obtain ⟨v, echoed, booked⟩ : ∃ v : Worker, echo cx task tuple { w with
          world.store := (w.world.store.add task.clause.head.relation tuple).1
          world.counters.newFacts := w.world.counters.newFacts + 1 } = .ok () v ∧
        w.world.Booked cx
          [{ relation := task.clause.head.relation, tuple, bindings := b, insertion := .added }]
          v.world := by
      rw [echo]
      by_cases tracked : task.clause.head.relation ∈ cx.tracked
      · rw [if_pos tracked]
        refine ⟨_, rfl, received, rfl, fun _ => rfl, ?_⟩
        simp [Report.added, Report.fact, Report.line, tracked]
      · rw [if_neg tracked]
        refine ⟨_, rfl, received, rfl, fun _ => rfl, ?_⟩
        simp [Report.added, Report.fact, tracked]
    change w.world.Booked cx _ (left (echo cx task tuple >>= fun _ => keep cx task failed tuple)
      { w with
        world.store := (w.world.store.add task.clause.head.relation tuple).1
        world.counters.newFacts := w.world.counters.newFacts + 1 }).world
    rw [left_bind, echoed]
    exact booked.silent (Mute.keep v)
  | present =>
    rw [hadd] at received
    change w.world.Booked cx _ (left (if cx.settings.recordWork = true then
        count fun c => { c with duplicates := c.duplicates + 1 }
      else pure ())
      { w with world.store := (w.world.store.add task.clause.head.relation tuple).1 }).world
    split
    · exact ⟨received, rfl, fun _ => rfl, rfl⟩
    · next unset => exact ⟨received, rfl, fun set => (unset set).elim, rfl⟩
  | misfit m =>
    rw [hadd] at received
    exact ⟨received, rfl, fun _ => rfl, rfl⟩

/-- **A conclusion books its own report.** -/
theorem conclude : Books cx (conclude cx task failed) (concludeReports cx task) := by
  intro w
  rw [left, concludeReports, conclude_eq]
  cases hvalue : Tuple.evaluate w.bindings cx.functions task.clause.head.args with
  | error e => exact .refl w.world
  | ok tuple => exact enter

/-- **A search books what it reports.** -/
theorem search {slots : List Slot} : Books cx (search cx task (Work.conclude cx task failed) slots)
    (searchReports cx task failed slots) := by
  induction slots with
  | nil => exact conclude
  | cons slot rest ih =>
    rw [Work.search, searchReports]
    cases slot.step.positiveGoal? with
    | some goal =>
      have finds : Mute cx (do
          let tuples ← Work.within slot.step.blame (Work.matching cx task slot goal)
          Work.shareOut cx task slot goal rest tuples) :=
        .bind (.within Mute.matching) fun _ => .shareOut
      dsimp only
      rw [← bind_assoc]
      exact .after finds fun tuples => .each (fun tuple => .after .take fun _ => ih) tuples
    | none =>
      refine .after (.within Mute.perform) fun goesOn => ?_
      split
      · exact ih
      · exact Mute.pure

/-- The end of a task reports nothing. -/
theorem settle {work : Work Unit} (h : Books cx work log) :
    Books cx (settle cx task failed work) log := by
  intro w
  have first := h w
  have finish : Mute cx (do
      setOff cx task failed
      record cx task.clause) := .bind .setOff fun _ => .record
  rw [left] at first
  rw [left, Work.settle]
  cases hwork : work w with
  | ok u w₁ =>
    rw [hwork] at first
    exact first.silent (finish w₁)
  | error e w₁ =>
    rw [hwork] at first
    cases e with
    | fault fault => exact first.silent (Mute.bind finish (fun _ => Mute.thrown) w₁)
    | crash message => exact first

theorem resume {goal : Goal} {rest : List Slot} {tuples : List Tuple} :
    Books cx (resume cx task failed goal rest tuples)
      (resumeReports cx task failed goal rest tuples) :=
  .settle (.each (fun _ => .after .take fun _ => .search) tuples)

theorem approach {slots : List Slot} : Books cx (approach cx task failed slots)
    (approachReports cx task failed slots) := by
  induction slots with
  | nil => exact .settle .conclude
  | cons slot rest ih =>
    rw [Work.approach, approachReports]
    cases slot.step.positiveGoal? with
    | some goal =>
      have finds : Mute cx (do
          let tuples ← Work.within slot.step.blame (Work.matching cx task slot goal)
          Work.record cx task.clause
          Work.shareOut cx task slot goal rest tuples) :=
        .bind (.within Mute.matching) fun _ => .bind .record fun _ => .shareOut
      have resumes : ∀ tuples, Books cx (Work.resume cx task failed goal rest tuples)
        (resumeReports cx task failed goal rest tuples) := fun _ => .resume
      simpa only [bind_assoc] using Books.after finds resumes
    | none =>
      refine .after (.within Mute.perform) fun goesOn => ?_
      split
      · exact ih
      · exact Mute.record

end Books

end Work

/-- **A task books what it reports**, however it ends. -/
theorem Task.run_booked {cx : Context} {task : Task} (failed : Bool) {world : World} :
    world.Booked cx (task.reports cx failed world) (task.run cx failed world).world := by
  have booked : world.Booked cx (task.reports cx failed world)
      (Work.left (task.work cx failed) (task.worker world)).world := by
    rw [Task.reports, Task.work, Task.worker]
    cases task.resumption with
    | none => exact Work.Books.approach { world, bindings := ∅ }
    | some r => exact Work.Books.resume { world, bindings := r.bindings }
  rw [Work.left] at booked
  rw [Task.run_eq]
  cases hwork : task.work cx failed (task.worker world) <;> rw [hwork] at booked <;> exact booked

/-! ## The books of an agenda -/

/-- **What an agenda has done to the books** is what the reports of its tasks say, in the order in
which the tasks have run. -/
theorem Agenda.booked_of_drain {cx : Context} {policy : Schedule} {budget : Nat}
    {a b : Agenda Task World} (h : drain (Task.run cx) policy budget a = some b) :
    a.world.Booked cx (logged (Task.reports cx) (Task.run cx) policy budget a) b.world := by
  induction budget generalizing a with
  | zero =>
    rw [drain] at h
    split at h
    · cases h
      exact .refl _
    · cases h
  | succ budget ih =>
    rw [drain] at h
    rw [logged]
    split at h
    · next hempty =>
      cases h
      rw [List.isEmpty_iff.1 hempty]
      exact .refl _
    · next hempty =>
      have hpos : 0 < a.waiting.length := List.length_pos_iff.2 (by simpa using hempty)
      obtain ⟨task, picked⟩ : ∃ task, a.waiting[policy a % a.waiting.length]? = some task :=
        ⟨_, List.getElem?_eq_getElem (Nat.mod_lt _ hpos)⟩
      have next : (a.step (Task.run cx) policy).world =
          (task.run cx a.fault.isSome a.world).world := by
        rw [step, runAt, picked]
      have first : a.world.Booked cx (task.reports cx a.fault.isSome a.world)
          (a.step (Task.run cx) policy).world := next ▸ Task.run_booked a.fault.isSome
      rw [picked]
      exact first.trans (ih h)

/-! ## The books of an evaluation -/

namespace Evaluation

variable {schedule : Schedule} {budget : Nat} {e e' : Evaluation}

/-- The reports of a round. -/
def roundReports (schedule : Schedule) (budget : Nat) (tasks : List Task) (e : Evaluation) :
    List Report :=
  Agenda.logged (Task.reports e.context) (Task.run e.context) schedule budget (e.agenda tasks)

/-- The reports of the rounds after the base round. -/
def roundsReports (schedule : Schedule) (budget : Nat) :
    (limit number : Nat) → Evaluation → List Report
  | 0, _, _ => []
  | limit + 1, number, e =>
    match seededTasks e.context e.world.delta with
    | [] => []
    | tasks =>
      let e := { e with phase := .recursiveRound number }
      roundReports schedule budget tasks e ++
        match round schedule budget tasks e with
        | some (e, .ok _) => roundsReports schedule budget limit (number + 1) e
        | _ => []

/-- **The reports of a whole evaluation**, in the order in which they are made. -/
def reports (schedule : Schedule) (budget : Nat) (e : Evaluation) : List Report :=
  let e := { e with phase := .baseRound }
  roundReports schedule budget (baseTasks e.context) e ++
    match round schedule budget (baseTasks e.context) e with
    | some (e, .ok _) => roundsReports schedule budget budget 1 e
    | _ => []

/-- A round starts with the books as they are. -/
theorem booked_of_round {tasks : List Task} {result : Except Fault Unit}
    (h : round schedule budget tasks e = some (e', result)) :
    e.world.Booked e.context (roundReports schedule budget tasks e) e'.world ∧
      e'.context = e.context := by
  obtain ⟨a, ha, _, rfl⟩ := exists_agenda h
  have start : e.world.Booked e.context [] (e.agenda tasks).world := .of_eq rfl rfl rfl rfl
  exact ⟨start.trans (Agenda.booked_of_drain ha), rfl⟩

theorem booked_of_rounds {limit number : Nat} {result : Except Fault Unit}
    (h : rounds schedule budget limit number e = some (e', result)) :
    e.world.Booked e.context (roundsReports schedule budget limit number e) e'.world := by
  induction limit generalizing number e with
  | zero =>
    rw [rounds] at h
    split at h
    · cases h
      exact .refl _
    · cases h
  | succ limit ih =>
    rw [rounds] at h
    rw [roundsReports]
    cases htasks : seededTasks e.context e.world.delta with
    | nil =>
      rw [htasks] at h
      cases h
      exact .refl _
    | cons task tasks =>
      rw [htasks] at h
      obtain ⟨⟨e₁, r₁⟩, hround, h⟩ := Option.bind_eq_some_iff.1 h
      obtain ⟨first, context⟩ := booked_of_round hround
      dsimp only
      rw [hround]
      cases r₁ with
      | error fault =>
        cases h
        exact first.trans (.refl _)
      | ok u => exact first.trans (context ▸ ih h)

/-- **An evaluation books what it reports**, however it ends. -/
theorem booked_of_run {result : Except Fault Summary}
    (h : run schedule budget e = some (e', result)) :
    e.world.Booked e.context (reports schedule budget e) e'.world := by
  rw [run] at h
  obtain ⟨⟨e₁, r₁⟩, hround, h⟩ := Option.bind_eq_some_iff.1 h
  obtain ⟨first, context⟩ := booked_of_round hround
  rw [reports, hround]
  cases r₁ with
  | error fault =>
    cases h
    exact first.trans (.refl _)
  | ok u =>
    obtain ⟨⟨e₂, r₂⟩, hrounds, h⟩ := Option.bind_eq_some_iff.1 h
    have rest := context ▸ booked_of_rounds hrounds
    cases r₂ <;> cases h <;> exact first.trans rest

end Evaluation

end Datalog
