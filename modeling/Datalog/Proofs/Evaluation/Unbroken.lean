import Datalog.Proofs.Evaluation.Line
import Datalog.Proofs.Evaluation.Search

/-!
# Proofs/Evaluation/Unbroken — a line that ends well has left nothing out

Let a line of tasks end well, over facts with the arity of their relations that are the same in the
end as they were at the start.  Whatever is due in one of the tasks is stored by then, or due in a
task that goes on from it (`Task.Stands.answers`); and where the nested loops would break, any tuple
is due.  So they do not break (`Task.exists_complete`).
-/

namespace Datalog

/-! ## What is never taken back -/

/-- **A worker after another**: nothing has been taken back, and the store is still one that has
been built. -/
structure Worker.Onward (w w' : Worker) : Prop where
  grows : w.Grows w'
  built : Store.Built w.world.store → Store.Built w'.world.store

namespace Worker.Onward

variable {w w' w'' : Worker}

theorem refl (w : Worker) : w.Onward w := ⟨.refl w, id⟩

theorem trans (h : w.Onward w') (h' : w'.Onward w'') : w.Onward w'' :=
  ⟨h.grows.trans h'.grows, h'.built ∘ h.built⟩

theorem of_idles (idles : w.Idles w') : w.Onward w' := by
  refine ⟨.of_idles idles, ?_⟩
  rw [idles.store]
  exact id

/-- More tasks and other bindings. -/
theorem of_store (store : w'.world.store = w.world.store) (spawned : w.spawned ⊆ w'.spawned) :
    w.Onward w' := by
  refine ⟨⟨?_, ?_, spawned⟩, ?_⟩ <;> rw [store]
  · exact .refl _
  · exact id
  · exact id

theorem blind : Work.Blind w.Onward :=
  ⟨fun idles h => h.trans (.of_idles idles),
    fun _ h => h.trans (.of_store rfl (List.Subset.refl _))⟩

end Worker.Onward

namespace Work

variable {cx : Context} {task : Task} {w w' v : Worker} {pre rest slots : List Slot}
  {slot : Slot} {goal : Goal} {tuples : List Tuple} {x : Work Unit}

theorem onward_suffixes (w : Worker) (goal : Goal) (rest : List Slot) (b : Bindings)
    (others : List (List Tuple)) (h : v.Onward w) : v.Onward { w with
      spawned := (others.map (suffix task goal rest b)).reverse ++ w.spawned } :=
  h.trans (.of_store rfl (List.subset_append_right ..))

theorem keeps_onward_conclude {failed : Bool} : Keeps v.Onward (conclude cx task failed) := by
  intro w u w' h ok
  obtain ⟨tuple, _, ⟨_, idles⟩ | ⟨_, fits, w₁, kept, idles⟩⟩ := conclude_ok ok
  · exact h.trans (.of_idles idles)
  · refine (h.trans ?_).trans (.of_idles idles)
    have entered : w.Onward (entered task tuple w) :=
      ⟨⟨fun r t ht => Store.holds_add_iff.2 (.inl ht), Store.Shaped.add, List.Subset.refl _⟩,
        fun built => built.add fits⟩
    refine entered.trans ?_
    cases kept with
    | idle | batched | delayed => exact .of_store rfl (List.Subset.refl _)
    | fired => exact .of_store rfl (List.subset_append_right ..)

theorem keeps_onward_setOff {failed : Bool} : Keeps v.Onward (setOff cx task failed) := by
  intro w u w' h ok
  obtain ⟨_, rfl⟩ | ⟨_, idles⟩ := setOff_ok ok
  · exact h
  · have fired : w.Onward { w with
        batch := [], spawned := (task.fired cx w.batch).reverse ++ w.spawned } :=
      .of_store rfl (List.subset_append_right ..)
    exact h.trans (fired.trans (.of_idles idles))

theorem keeps_onward_search {failed : Bool} :
    Keeps v.Onward (search cx task (conclude cx task failed) slots) :=
  .search Worker.Onward.blind onward_suffixes keeps_onward_conclude

theorem keeps_onward_forM (keeps : Keeps v.Onward x) : Keeps v.Onward (tuples.forM fun tuple => do
    take cx goal tuple
    x) :=
  .forM fun _ => .bind (.take Worker.Onward.blind) fun _ => keeps

theorem keeps_onward_settle {failed : Bool} (keeps : Keeps v.Onward x) :
    Keeps v.Onward (settle cx task failed x) := by
  intro w u w' h ok
  obtain ⟨w₁, w₂, hx, off, idles⟩ := settle_ok ok
  exact (keeps_onward_setOff w₁ () w₂ (keeps w () w₁ h hx) off).trans (.of_idles idles)

/-- A task never takes anything back. -/
theorem onward_work {world : World} {u : Unit}
    (ok : task.work cx false (task.worker world) = .ok u w') : (task.worker world).Onward w' :=
  (Keeps.work Worker.Onward.blind onward_suffixes keeps_onward_conclude keeps_onward_setOff _ u w'
    ⟨.refl _, rfl⟩ ok).1

end Work

/-! ## What is due on a line -/

/-- **A task that stands on the line** of another: it is that task at its start, or goes on at one
of its lookups. -/
inductive Task.Stands (task : Task) : Task → Prop
  | start (first : task.resumption = none) : Stands task task
  | goOn {pre rest : List Slot} {slot : Slot} {goal : Goal} {held : Bindings}
      {tuples : List Tuple} (body : task.clause.body = pre ++ slot :: rest)
      (positive : slot.step.positiveGoal? = some goal)
      (long : ∀ t ∈ tuples, goal.args.length ≤ t.length) :
      Stands task (Work.suffix task goal rest held tuples)

namespace Work

variable {cx : Context} {F : Facts} {task : Task} {w w' v : Worker} {pre rest slots : List Slot}
  {slot : Slot} {goal : Goal} {tuples : List Tuple} {b b' : Bindings} {due : Tuple → Prop}
  {tuple : Tuple}

/-- The tuple is due from these slots on. -/
abbrev DueFrom (cx : Context) (F : Facts) (task : Task) (slots : List Slot) (b : Bindings)
    (tuple : Tuple) : Prop :=
  task.clause.head.Due (task.scene cx F F) (slots.map Slot.step) b tuple

/-- **What was due is answered**: it is a fact, or due in a task that goes on. -/
def Answered (cx : Context) (F : Facts) (task : Task) (tasks : List Task) (tuple : Tuple) : Prop :=
  F task.clause.head.relation tuple ∨
    ∃ t ∈ tasks, t.resumes = true ∧ task.Stands t ∧ t.Due cx F F tuple

theorem Answered.mono {tasks tasks' : List Task} (h : Answered cx F task tasks tuple)
    (subset : tasks ⊆ tasks') : Answered cx F task tasks' tuple :=
  h.imp_right fun ⟨t, ht, rest⟩ => ⟨t, subset ht, rest⟩

/-- **A stretch of work answers** what was due, and leaves what is known bound as it was. -/
structure Answers (cx : Context) (F : Facts) (task : Task) (known : List Var)
    (due : Tuple → Prop) (w w' : Worker) : Prop where
  agree : Bindings.Agree known w'.bindings w.bindings
  answered : ∀ tuple, due tuple → Answered cx F task w'.spawned tuple

/-- **What the work is about**: the clause is in order, and the tuples that its goals meet are as
long as the goals. -/
structure Apt (cx : Context) (F : Facts) (task : Task) : Prop where
  orderly : task.clause.clause.Orderly
  suited : Step.Suited (task.scene cx F F) task.clause.clause.body

/-- **A store that holds the facts** and has been built. -/
structure Bears (F : Facts) (w : Worker) : Prop where
  built : Store.Built w.world.store
  above : F.Within (Store.Holds w.world.store)

theorem Bears.onward (h : Bears F w) (onward : w.Onward w') : Bears F w' :=
  ⟨onward.built h.built, h.above.trans onward.grows.store⟩

/-- With nothing new in the end there was nothing new before. -/
theorem Bears.holds_eq (h : Bears F w) (onward : w.Onward w')
    (below : Facts.Within (Store.Holds w'.world.store) F) : Store.Holds w.world.store = F := by
  funext r t
  exact propext ⟨fun ht => below r t (onward.grows.store r t ht), h.above r t⟩

variable (apt : Apt cx F task)
include apt

theorem Apt.dueFrom (body : task.clause.body = pre ++ slots)
    (agree : Bindings.Agree (before pre) b b') (due : DueFrom cx F task slots b tuple) :
    DueFrom cx F task slots b' tuple := by
  refine due.transfer (inOrder_rest apt.orderly body) (fun g hg => apt.suited g ?_)
    (head_reads apt.orderly body) agree
  rw [PlannedClause.clause, body, List.map_append]
  exact List.mem_append_right _ hg

/-- **A lookup** finds the tuples after which something is due. -/
theorem matching_answers (built : Store.Built w.world.store) (same : Store.Holds w.world.store = F)
    (body : task.clause.body = pre ++ slot :: rest) (positive : slot.step.positiveGoal? = some goal)
    (ok : matching cx task slot goal w = .ok tuples w') :
    w = w' ∧ (∀ t ∈ tuples, goal.args.length ≤ t.length) ∧
      ∀ tuple, DueFrom cx F task (slot :: rest) w.bindings tuple →
        ∃ t ∈ tuples, DueFrom cx F task rest (goal.bind t w.bindings) tuple := by
  obtain ⟨hstep, hn⟩ := step_of_positive positive
  obtain ⟨rfl, ⟨key, hkey⟩, found⟩ := matching_found (F := F) built ok
  rw [same] at found
  refine ⟨rfl, fun t ht => ?_, fun tuple due => ?_⟩
  · obtain ⟨_, _, offered, _⟩ := (found t).1 ht
    exact Nat.le_of_eq ((apt.suited goal (hstep ▸ step_mem body)).offered t offered).symm
  · rw [DueFrom, List.map_cons, hstep] at due
    obtain ⟨t, ht, hnone⟩ | ⟨c, leads, due⟩ := Head.Due.cons_iff.1 due
    · obtain ⟨x, hx⟩ := Goal.exists_key_iff.1 ⟨key, hkey⟩ t ht
      cases hx.symm.trans hnone
    · obtain ⟨key, hkey, t, ⟨offered, agrees⟩, rfl⟩ := (Step.leads_found_iff hn).1 leads
      exact ⟨t, (found t).2 ⟨key, hkey, offered, agrees⟩, due⟩

/-- **Any other step** gives up where nothing is due, or goes on where it is. -/
theorem perform_answers {go : Bool} (built : Store.Built w.world.store)
    (same : Store.Holds w.world.store = F) (body : task.clause.body = pre ++ slot :: rest)
    (positive : slot.step.positiveGoal? = none) (ok : perform cx slot w = .ok go w') :
    w' = { w with bindings := w'.bindings } ∧
      Bindings.Agree (before pre) w'.bindings w.bindings ∧
      ∀ tuple, DueFrom cx F task (slot :: rest) w.bindings tuple →
        go = true ∧ DueFrom cx F task rest w'.bindings tuple := by
  have performed : Performed (task.scene cx F F) slot.step w go w' := by
    refine perform_ok positive built (fun g _ t => by rw [same]) (fun g hg => ?_) ok
    exact apt.suited g (hg ▸ step_mem body)
  obtain ⟨_, disjoint, _⟩ := orderly_at apt.orderly body
  refine ⟨performed.rebound, ?_, fun tuple due => ?_⟩
  · cases go with
    | false =>
      rw [performed.stays rfl]
      exact fun _ _ => rfl
    | true => exact fun v hv => (performed.leads rfl).get?_eq (disjoint hv)
  · obtain fails | ⟨c, leads, due⟩ := Head.Due.cons_iff.1 due
    · exact (performed.fine fails).elim
    · obtain ⟨goes, rfl⟩ := performed.only c leads
      exact ⟨goes, due⟩

omit apt

/-- **Sharing out** keeps a tuple, or makes a task for it. -/
theorem shareOut_answers {first : List Tuple} (body : task.clause.body = pre ++ slot :: rest)
    (positive : slot.step.positiveGoal? = some goal)
    (long : ∀ t ∈ tuples, goal.args.length ≤ t.length)
    (ok : shareOut cx task slot goal rest tuples w = .ok first w') :
    w.Onward w' ∧ w'.bindings = w.bindings ∧ (∀ t ∈ first, goal.args.length ≤ t.length) ∧
      ∀ tuple, (∃ t ∈ tuples, DueFrom cx F task rest (goal.bind t w.bindings) tuple) →
        (∃ t ∈ first, DueFrom cx F task rest (goal.bind t w.bindings) tuple) ∨
          Answered cx F task w'.spawned tuple := by
  obtain ⟨others, rfl, idles⟩ := shareOut_ok ok
  have handed : w.Onward { w with
      spawned := (others.map (suffix task goal rest w.bindings)).reverse ++ w.spawned } :=
    .of_store rfl (List.subset_append_right ..)
  refine ⟨handed.trans (.of_idles idles), idles.bindings,
    fun t ht => long t (List.mem_append_left _ ht), ?_⟩
  rintro tuple ⟨t, ht, due⟩
  obtain ht | ht := List.mem_append.1 ht
  · exact .inl ⟨t, ht, due⟩
  · obtain ⟨ts, hts, ht⟩ := List.mem_flatten.1 ht
    refine .inr (.inr ⟨suffix task goal rest w.bindings ts, ?_, rfl, ?_, t, ht, due⟩)
    · rw [idles.spawned]
      exact List.mem_append_left _ (List.mem_reverse.2 (List.mem_map_of_mem hts))
    · exact .goOn body positive fun t ht =>
        long t (List.mem_append_right _ (List.mem_flatten.2 ⟨ts, hts, ht⟩))

/-- **A conclusion** stores what is due. -/
theorem conclude_answers {u : Unit} {failed : Bool} {known : List Var}
    (ok : conclude cx task failed w = .ok u w')
    (below : Facts.Within (Store.Holds w'.world.store) F) :
    Answers cx F task known (DueFrom cx F task [] w.bindings) w w' := by
  obtain ⟨tuple, value, stored⟩ := conclude_ok ok
  have held : Store.Holds w'.world.store task.clause.head.relation tuple ∧
      w'.bindings = w.bindings := by
    obtain ⟨old, idles⟩ | ⟨_, _, w₁, kept, idles⟩ := stored
    · rw [idles.store]
      exact ⟨old, idles.bindings⟩
    · rw [idles.store, idles.bindings]
      cases kept <;> exact ⟨Store.holds_add_iff.2 (.inr ⟨rfl, rfl⟩), rfl⟩
  refine ⟨fun v _ => by rw [held.2], fun x due => .inl ?_⟩
  exact Head.Due.nil_iff.1 due tuple value ▸ below _ _ held.1

include apt

/-- **A loop over tuples found**, given what becomes of each of them. -/
theorem forM_answers {x : Work Unit} {u : Unit} (body : task.clause.body = pre ++ slot :: rest)
    (positive : slot.step.positiveGoal? = some goal) (onwards : ∀ {v : Worker}, Keeps v.Onward x)
    (each : ∀ {v v' : Worker} {u : Unit}, Bears F v → x v = .ok u v' →
      Facts.Within (Store.Holds v'.world.store) F →
      Answers cx F task (before (pre ++ [slot])) (DueFrom cx F task rest v.bindings) v v')
    (bears : Bears F w) (long : ∀ t ∈ tuples, goal.args.length ≤ t.length)
    (ok : (tuples.forM fun tuple => do take cx goal tuple; x) w = .ok u w')
    (below : Facts.Within (Store.Holds w'.world.store) F) :
    Answers cx F task (before pre)
      (fun tuple => ∃ t ∈ tuples, DueFrom cx F task rest (goal.bind t w.bindings) tuple) w w' := by
  induction tuples generalizing w with
  | nil =>
    obtain ⟨_, rfl⟩ := Outcome.pure_ok_iff.1 ok
    exact ⟨fun _ _ => rfl, nofun⟩
  | cons t ts ih =>
    rw [List.forall_mem_cons] at long
    obtain ⟨_, w₂, first, later⟩ := Outcome.bind_ok_iff.1 ok
    obtain ⟨_, w₁, htake, hx⟩ := Outcome.bind_ok_iff.1 first
    have idles := take_ok htake
    have bindings : w₁.bindings = goal.bind t w.bindings := idles.bindings
    have bound : w.Onward { w with bindings := goal.bind t w.bindings } :=
      .of_store rfl (List.Subset.refl _)
    have taken := bound.trans (.of_idles idles)
    have searched : w₁.Onward w₂ := onwards w₁ () w₂ (.refl _) hx
    have others : w₂.Onward w' := keeps_onward_forM onwards w₂ u w' (.refl _) later
    have bears₂ := (bears.onward taken).onward searched
    have answers := each (bears.onward taken) hx (others.grows.store.trans below)
    have agree : Bindings.Agree (before pre) w₂.bindings w.bindings := by
      refine (answers.agree.subset before_subset_snoc).trans ?_
      rw [bindings]
      exact agree_bind_self apt.orderly body positive long.1 _
    have answers' := ih bears₂ long.2 later
    refine ⟨answers'.agree.trans agree, ?_⟩
    rintro tuple ⟨y, hy, due⟩
    obtain rfl | hy := List.mem_cons.1 hy
    · exact (answers.answered tuple (bindings ▸ due)).mono others.grows.spawned
    · refine answers'.answered tuple ⟨y, hy, apt.dueFrom (body_snoc body) ?_ due⟩
      exact agree_bind positive (long.2 y hy) agree.symm

/-- **A search that ends well** has answered what was due. -/
theorem search_answers {u : Unit} {failed : Bool} (body : task.clause.body = pre ++ slots)
    (bears : Bears F w) (ok : search cx task (conclude cx task failed) slots w = .ok u w')
    (below : Facts.Within (Store.Holds w'.world.store) F) :
    Answers cx F task (before pre) (DueFrom cx F task slots w.bindings) w w' := by
  induction slots generalizing pre w w' u with
  | nil =>
    exact conclude_answers ok below
  | cons slot rest ih =>
    have body' := body_snoc body
    have onward : w.Onward w' := keeps_onward_search w u w' (.refl _) ok
    have same := bears.holds_eq onward below
    rw [search] at ok
    cases positive : slot.step.positiveGoal? with
    | some goal =>
      simp only [positive] at ok
      obtain ⟨tuples, _, finds, ok⟩ := Outcome.bind_ok_iff.1 ok
      obtain ⟨rfl, long, found⟩ :=
        matching_answers apt bears.built same body positive (within_ok_iff.1 finds)
      obtain ⟨first, w₁, share, loop⟩ := Outcome.bind_ok_iff.1 ok
      obtain ⟨shared, bindings, long, split⟩ := shareOut_answers body positive long share
      have answers := forM_answers apt body positive keeps_onward_search
        (fun bears ok below => ih body' bears ok below) (bears.onward shared) long loop below
      have looped : w₁.Onward w' :=
        keeps_onward_forM keeps_onward_search w₁ u w' (.refl _) loop
      rw [bindings] at answers
      refine ⟨answers.agree.trans fun v _ => by rw [bindings], fun tuple due => ?_⟩
      obtain due | answered := split tuple (found tuple due)
      · exact answers.answered tuple due
      · exact answered.mono looped.grows.spawned
    | none =>
      simp only [positive] at ok
      obtain ⟨go, w₁, performs, ok⟩ := Outcome.bind_ok_iff.1 ok
      obtain ⟨rebound, agree, goes⟩ :=
        perform_answers apt bears.built same body positive (within_ok_iff.1 performs)
      cases go with
      | false =>
        obtain ⟨_, rfl⟩ := Outcome.pure_ok_iff.1 ok
        exact ⟨agree, fun tuple due => absurd (goes tuple due).1 Bool.false_ne_true⟩
      | true =>
        have bears₁ : Bears F w₁ := by
          rw [rebound]
          exact ⟨bears.built, bears.above⟩
        have answers := ih body' bears₁ ok below
        exact ⟨(answers.agree.subset before_subset_snoc).trans agree,
          fun tuple due => answers.answered tuple (goes tuple due).2⟩

omit apt in
/-- **The end of a task** takes nothing back. -/
theorem answered_of_settle {u : Unit} {failed : Bool}
    (each : ∀ {w₁}, x w = .ok () w₁ → Facts.Within (Store.Holds w₁.world.store) F →
      ∀ tuple, due tuple → Answered cx F task w₁.spawned tuple)
    (ok : settle cx task failed x w = .ok u w')
    (below : Facts.Within (Store.Holds w'.world.store) F) :
    ∀ tuple, due tuple → Answered cx F task w'.spawned tuple := by
  obtain ⟨w₁, w₂, hx, off, idles⟩ := settle_ok ok
  have onward : w₁.Onward w' :=
    (keeps_onward_setOff w₁ () w₂ (.refl _) off).trans (.of_idles idles)
  have answered := each hx (onward.grows.store.trans below)
  exact fun tuple due => (answered tuple due).mono onward.grows.spawned

/-- **Going on over a batch** answers what is due after its tuples. -/
theorem resume_answers {u : Unit} {failed : Bool} (body : task.clause.body = pre ++ slot :: rest)
    (positive : slot.step.positiveGoal? = some goal) (bears : Bears F w)
    (long : ∀ t ∈ tuples, goal.args.length ≤ t.length)
    (ok : resume cx task failed goal rest tuples w = .ok u w')
    (below : Facts.Within (Store.Holds w'.world.store) F) :
    ∀ tuple, (∃ t ∈ tuples, DueFrom cx F task rest (goal.bind t w.bindings) tuple) →
      Answered cx F task w'.spawned tuple := by
  refine answered_of_settle (fun hx below => ?_) ok below
  exact (forM_answers apt body positive keeps_onward_search (fun bears ok below =>
    search_answers apt (body_snoc body) bears ok below) bears long hx below).answered

/-- **A task from its first step on** answers what is due. -/
theorem approach_answers {u : Unit} {failed : Bool} (body : task.clause.body = pre ++ slots)
    (built : Store.Built w.world.store) (same : Store.Holds w.world.store = F)
    (ok : approach cx task failed slots w = .ok u w')
    (below : Facts.Within (Store.Holds w'.world.store) F) :
    ∀ tuple, DueFrom cx F task slots w.bindings tuple → Answered cx F task w'.spawned tuple := by
  induction slots generalizing pre w w' u with
  | nil =>
    refine answered_of_settle (fun hx below => ?_) ok below
    have answers : Answers cx F task [] (DueFrom cx F task [] w.bindings) w _ :=
      conclude_answers hx below
    exact answers.answered
  | cons slot rest ih =>
    rw [approach] at ok
    cases positive : slot.step.positiveGoal? with
    | some goal =>
      simp only [positive] at ok
      obtain ⟨tuples, _, finds, ok⟩ := Outcome.bind_ok_iff.1 ok
      obtain ⟨rfl, long, found⟩ :=
        matching_answers apt built same body positive (within_ok_iff.1 finds)
      obtain ⟨_, w₁, recorded, ok⟩ := Outcome.bind_ok_iff.1 ok
      have idles := record_ok recorded
      obtain ⟨first, w₂, share, ok⟩ := Outcome.bind_ok_iff.1 ok
      have bears : Bears F w := ⟨built, same ▸ .refl _⟩
      obtain ⟨shared, bindings, long, split⟩ :=
        shareOut_answers (F := F) body positive long share
      have resumed : w₂.Onward w' :=
        keeps_onward_settle (keeps_onward_forM keeps_onward_search) w₂ u w' (.refl _) ok
      have answered := resume_answers apt body positive
        ((bears.onward (.of_idles idles)).onward shared) long ok below
      rw [bindings, idles.bindings] at answered
      rw [idles.bindings] at split
      intro tuple due
      obtain due | handed := split tuple (found tuple due)
      · exact answered tuple due
      · exact handed.mono resumed.grows.spawned
    | none =>
      simp only [positive] at ok
      obtain ⟨go, w₁, performs, ok⟩ := Outcome.bind_ok_iff.1 ok
      obtain ⟨rebound, _, goes⟩ :=
        perform_answers apt built same body positive (within_ok_iff.1 performs)
      intro tuple due
      obtain ⟨rfl, due⟩ := goes tuple due
      have store : w₁.world.store = w.world.store := by rw [rebound]
      exact ih (body_snoc body) (store ▸ built) (store ▸ same) ok below tuple due

end Work

/-! ## Lines that end well -/

namespace Task

variable {cx : Context} {F : Facts} {task t : Task} {world : World} {w : Worker}

/-- **A task on the line that ends well** answers what is due in it. -/
theorem Stands.answers {u : Unit} (apt : Work.Apt cx F task) (stands : task.Stands t)
    (built : Store.Built world.store) (above : F.Within (Store.Holds world.store))
    (ok : t.work cx false (t.worker world) = .ok u w)
    (below : Facts.Within (Store.Holds w.world.store) F) :
    ∀ tuple, t.Due cx F F tuple → Work.Answered cx F task w.spawned tuple := by
  have bears : Work.Bears F (t.worker world) := ⟨built, above⟩
  have same := bears.holds_eq (Work.onward_work ok) below
  intro tuple due
  rw [Due] at due
  cases stands with
  | start first =>
    rw [work, first] at ok
    rw [first] at due
    have bare : (task.worker world).bindings = ∅ := by
      rw [worker, first]
      rfl
    refine Work.approach_answers apt (List.nil_append _).symm built same ok below tuple ?_
    rw [bare]
    exact due
  | goOn body positive long =>
    rw [Work.work_suffix] at ok
    exact Work.resume_answers apt body positive bears long ok below tuple due

end Task

namespace Agenda

variable {cx : Context} {F : Facts} {task : Task} {a : Agenda Task World}

/-- **Nothing is left out**: the store is built and holds the facts, and if it holds nothing else,
whatever is due in the task is a fact, or due in a task that waits. -/
structure Complete (cx : Context) (F : Facts) (task : Task) (a : Agenda Task World) : Prop where
  built : a.world.store.Built
  above : F.Within a.world.store.Holds
  answered : Facts.Within a.world.store.Holds F → ∀ tuple, task.Due cx F F tuple →
    F task.clause.head.relation tuple ∨
      ∃ t ∈ a.waiting, task.Stands t ∧ t.Due cx F F tuple

/-- **A task that ends well** leaves nothing out. -/
theorem Complete.ranAt (h : a.Complete cx F task) (apt : Work.Apt cx F task) {i : Nat} {t : Task}
    (hi : a.waiting[i]? = some t) (ok : (t.runLine cx false a.world).result = .ok ()) :
    (a.ranAt i t (t.runLine cx false a.world)).Complete cx F task := by
  obtain ⟨w, hwork, hrun⟩ := Task.run_ok ok
  have onward := Work.onward_work hwork
  have ran : t.runLine cx false a.world =
      { world := w.world, spawned := w.spawned.filter Task.resumes, result := .ok () } := by
    rw [Task.runLine, hrun]
  rw [ran]
  refine ⟨onward.built h.built, h.above.trans onward.grows.store, fun below tuple due => ?_⟩
  obtain held | ⟨u, hu, stands, due⟩ := h.answered (onward.grows.store.trans below) tuple due
  · exact .inl held
  · obtain rfl | hu := List.mem_cons.1 ((perm_waiting hi).mem_iff.2 hu)
    · refine (stands.answers apt h.built h.above hwork below tuple due).imp_right ?_
      rintro ⟨t, ht, resumes, rest⟩
      exact ⟨t, List.mem_append_left _ (List.mem_filter.2 ⟨ht, resumes⟩), rest⟩
    · exact .inr ⟨u, List.mem_append_right _ hu, stands, due⟩

end Agenda

namespace Task

variable {cx : Context} {task : Task} {world : World}

/-- **The tuples of the seed** have the arity of the relation that they are new in. -/
def SeedMeasured (task : Task) : Prop :=
  ∀ tuples, task.seed = some tuples → ∀ g, .lookup g ∈ task.clause.clause.body → g.delta = true →
    ∀ t ∈ tuples, t.length = g.relation.arity

/-- Tuples with the arity of their relations are as long as the goals that meet them. -/
theorem apt_of_measured {F : Facts} (orderly : task.clause.clause.Orderly) (measured : F.Measured)
    (seed : task.SeedMeasured) : Work.Apt cx F task := by
  refine ⟨orderly, fun g hg => ⟨fun t ht => ?_, fun t ht => ?_⟩⟩
  · rw [orderly.goals g hg]
    cases hd : g.delta with
    | false =>
      rw [Scene.Offers, hd] at ht
      exact measured g.relation t ht
    | true =>
      rw [Scene.Offers, hd, scene] at ht
      cases hs : task.seed with
      | none =>
        rw [hs] at ht
        exact measured g.relation t ht
      | some tuples =>
        rw [hs] at ht
        exact seed tuples hs g hg hd t ht
  · rw [orderly.goals g hg]
    exact measured g.relation t ht

/-- **A line that ends well**, over tuples with the arity of their relations, and that leaves the
store as it was: then the nested loops find all their matches, and the facts of these are there. -/
theorem exists_complete (orderly : task.clause.clause.Orderly) (first : task.resumption = none)
    (built : world.store.Built) (measured : Facts.Measured world.store.Holds)
    (seed : task.SeedMeasured) {policy : Policy Task World} {budget : Nat}
    {last : Agenda Task World}
    (ran : Agenda.drain (runLine cx) policy budget { world, waiting := [task] } = some last)
    (fine : last.fault = none) (same : last.world.store = world.store) :
    ∃ ms, Loops.complete ⟨cx.functions, world.store, task.seed⟩ task.clause.clause = .ok ms ∧
      ∀ m ∈ ms, world.store.Holds task.clause.head.relation m.2 := by
  have apt : Work.Apt cx world.store.Holds task := apt_of_measured orderly measured seed
  obtain ⟨complete, waiting⟩ := Agenda.drain_induction
    (P := Agenda.Complete cx world.store.Holds task) (fun a i t hi ok h => h.ranAt apt hi ok) ran
    fine ⟨built, .refl _, fun _ _ due => .inr ⟨task, List.mem_singleton.2 rfl, .start first, due⟩⟩
  -- where the loops break any tuple is due, and one that is too long cannot be a fact
  have lacks : ¬world.store.Holds task.clause.head.relation
      (List.replicate (task.clause.head.relation.arity + 1) (.int 0)) := by
    intro held
    have long := measured _ _ held
    rw [List.length_replicate] at long
    omega
  refine Loops.exists_complete (fun tuple due => ?_) lacks
  have due : task.Due cx world.store.Holds world.store.Holds tuple := by
    rw [Due, first]
    exact due
  obtain held | ⟨t, ht, _⟩ := complete.answered (same ▸ .refl _) tuple due
  · exact held
  · rw [waiting] at ht
    cases ht

end Task

end Datalog
