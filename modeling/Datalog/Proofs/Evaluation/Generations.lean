import Datalog.Meaning.Reports
import Datalog.Proofs.Evaluation.Rounds

/-!
# Proofs/Evaluation/Generations — how deep the tasks of a round go

A task makes tasks of two kinds.  To some it hands on a part of a lookup, and these have its own
generation (`Task.HandsOn`).  Others it sets off with facts that it has found, one generation deeper
and only below the highest one (`Task.SetsOff`); at the highest generation the facts wait in the
delta instead (`Task.run_makes`).  So a generation counts how often a task has been set off by
another since its round began, and this is bounded by the settings, however far the rules recur and
in whatever order the tasks run (`Evaluation.generations_bounded`).
-/

namespace Datalog

/-- **The task hands on some of its work**: the other goes on past a lookup of the same clause. -/
structure Task.HandsOn (task t : Task) : Prop where
  clause : t.clause = task.clause
  seed : t.seed = task.seed
  generation : t.generation = task.generation
  resumes : t.resumes = true

/-- **The task sets off another** with facts that it has found: a clause that these facts set off is
started on a batch of them. -/
structure Task.SetsOff (cx : Context) (task t : Task) : Prop where
  below : task.generation < cx.settings.maxGeneration
  clause : t.clause ∈ cx.stratum.firedBy task.clause.head.relation
  seed : ∃ batch, t.seed = some batch ∧ batch ≠ []
  generation : t.generation = task.generation + 1
  begins : t.resumes = false

namespace Work

variable {cx : Context} {task : Task} {failed : Bool} {delta : Assoc Relation (List Tuple)}
  {w w' : Worker}

/-- **A worker that keeps to its generation**, with the delta that it has started from: only below
the highest generation does it hold a batch, and only at the highest does it change the delta. -/
structure Ranked (cx : Context) (task : Task) (delta : Assoc Relation (List Tuple)) (w : Worker) :
    Prop where
  spawned : ∀ t ∈ w.spawned, task.HandsOn t ∨ task.SetsOff cx t
  batch : w.batch ≠ [] → task.generation < cx.settings.maxGeneration
  delta : task.generation < cx.settings.maxGeneration → w.world.delta = delta

namespace Ranked

theorem start {world : World} : Ranked cx task world.delta (task.worker world) where
  spawned := nofun
  batch nonempty := (nonempty rfl).elim
  delta _ := rfl

theorem blind : Blind (Ranked cx task delta) where
  idles idles h :=
    ⟨idles.spawned ▸ h.spawned, idles.batch ▸ h.batch, idles.delta ▸ h.delta⟩
  bindings _ h := ⟨h.spawned, h.batch, h.delta⟩

/-- Some of the work is handed on. -/
theorem suffixes {goal : Goal} {rest : List Slot} {bindings : Bindings}
    {others : List (List Tuple)} (h : Ranked cx task delta w) : Ranked cx task delta
      { w with spawned := (others.map (suffix task goal rest bindings)).reverse ++ w.spawned } := by
  refine { h with spawned := List.forall_mem_append.2 ⟨fun t ht => .inl ?_, h.spawned⟩ }
  obtain ⟨_, _, rfl⟩ := List.mem_map.1 (List.mem_reverse.1 ht)
  exact ⟨rfl, rfl, rfl, rfl⟩

/-- A batch is set off. -/
theorem fired {batch : List Tuple} (h : Ranked cx task delta w) (nonempty : batch ≠ [])
    (below : task.generation < cx.settings.maxGeneration) : Ranked cx task delta
      { w with batch := [], spawned := (task.fired cx batch).reverse ++ w.spawned } where
  spawned := by
    refine List.forall_mem_append.2 ⟨fun t ht => .inr ?_, h.spawned⟩
    obtain ⟨clause, hclause, rfl⟩ := List.mem_map.1 (List.mem_reverse.1 ht)
    exact ⟨below, hclause, ⟨batch, rfl, nonempty⟩, rfl, rfl⟩
  batch empty := (empty rfl).elim
  delta := h.delta

/-- **A new tuple is kept**, in the batch or in the delta, as the generation says. -/
theorem kept {tuple : Tuple} (h : Ranked cx task delta w) (kept : Kept cx task tuple w w') :
    Ranked cx task delta w' := by
  cases kept with
  | idle => exact h
  | batched below => exact { h with batch := fun _ => below }
  | fired below => exact h.fired (List.concat_ne_nil tuple w.batch) below
  | delayed top => exact { h with delta := fun below => (not_lt.2 top below).elim }

end Ranked

/-- **Every stretch of a task** keeps to its generation, also where it fails. -/
theorem ranked_steady (cx : Context) (failed : Bool) :
    Steady cx task failed (Ranked cx task delta) (fun _ => True) fun _ _ => True := by
  refine .of_blind Ranked.blind (fun _ _ _ _ _ _ _ _ hw => hw.suffixes) (fun w hw => ⟨?_, ?_⟩) ?_
  · intro _ w' ok
    obtain ⟨tuple, _, ⟨_, idles⟩ | ⟨_, _, w₁, kept, idles⟩⟩ := conclude_ok ok
    · exact ⟨Ranked.blind.idles idles hw, trivial⟩
    · have stored : Ranked cx task delta (entered task tuple w) := ⟨hw.spawned, hw.batch, hw.delta⟩
      exact ⟨Ranked.blind.idles idles (stored.kept kept), trivial⟩
  · intro e w' h
    obtain ⟨rfl, _⟩ | ⟨tuple, _, _, _, rfl, _⟩ := conclude_error h
    · exact ⟨hw, trivial⟩
    · exact ⟨⟨hw.spawned, hw.batch, hw.delta⟩, trivial⟩
  · intro w _ w' hw ok
    obtain ⟨_, rfl⟩ | ⟨nonempty, idles⟩ := setOff_ok ok
    · exact hw
    · exact Ranked.blind.idles idles (hw.fired nonempty (hw.batch nonempty))

end Work

/-- **What a task makes**, and that it leaves the delta alone below the highest generation. -/
theorem Task.run_makes (cx : Context) (failed : Bool) (task : Task) (world : World) :
    (∀ t ∈ (task.run cx failed world).spawned, task.HandsOn t ∨ task.SetsOff cx t) ∧
      (task.generation < cx.settings.maxGeneration →
        (task.run cx failed world).world.delta = world.delta) := by
  obtain ⟨w, ranked, ran, spawned, _⟩ := Task.run_maintains
    ((Work.ranked_steady cx failed).work fun _ _ _ _ => trivial) Work.Ranked.start
  rw [ran, spawned]
  exact ⟨ranked.spawned, ranked.delta⟩

/-- **The tasks that lead to a task**, made one by the other while the agenda runs, in whatever
order.  The last comes first; the task that the first of them was made by waits when the agenda
starts. -/
inductive Agenda.Lineage {τ : Type u} {σ : Type v} (run : Behaviour τ σ) (a : Agenda τ σ) :
    τ → List τ → Prop
  | opening {t : τ} (ht : t ∈ a.waiting) : Lineage run a t []
  | made {b : Agenda τ σ} {task t : τ} {line : List τ} (h : Lineage run a task line)
      (reaches : a.Reaches run b) (waits : task ∈ b.waiting)
      (spawned : t ∈ (run b.fault.isSome task b.world).spawned) : Lineage run a t (t :: line)

/-- **Every task comes from somewhere.** -/
theorem Agenda.Reaches.exists_lineage {τ : Type u} {σ : Type v} {run : Behaviour τ σ}
    {a b : Agenda τ σ} (h : a.Reaches run b) (unstarted : a.finished = []) :
    ∀ t ∈ b.waiting ++ b.finished, ∃ line, a.Lineage run t line := by
  induction h with
  | refl =>
    rw [unstarted, List.append_nil]
    exact fun t ht => ⟨[], .opening ht⟩
  | @step b i task reaches hi ih =>
    have waits : task ∈ b.waiting := List.mem_of_getElem? hi
    rw [List.forall_mem_append] at ih
    rw [runAt, hi]
    dsimp only
    rw [List.forall_mem_append, List.forall_mem_append, List.forall_mem_cons]
    refine ⟨⟨fun t ht => ?_, fun t ht => ih.1 t (List.mem_of_mem_eraseIdx ht)⟩,
      ih.1 task waits, ih.2⟩
    obtain ⟨line, lineage⟩ := ih.1 task waits
    exact ⟨t :: line, lineage.made reaches waits ht⟩

/-- **The generation of a task counts** how often one task was set off by another on the way to it,
if the agenda has started in generation 0; and it is bounded. -/
theorem Agenda.Lineage.generation_eq {cx : Context} {a : Agenda Task World} {t : Task}
    {line : List Task} (zero : ∀ t ∈ a.waiting, t.generation = 0)
    (h : a.Lineage (Task.run cx) t line) :
    t.generation = line.countP (fun t => !t.resumes) ∧
      t.generation ≤ cx.settings.maxGeneration := by
  induction h with
  | opening ht =>
    rw [zero _ ht, List.countP_nil]
    exact ⟨rfl, Nat.zero_le _⟩
  | @made b task t line _ _ _ spawned ih =>
    rcases (Task.run_makes cx b.fault.isSome task b.world).1 t spawned with handed | setOff
    · rw [handed.generation, List.countP_cons_of_neg (by simp [handed.resumes])]
      exact ih
    · rw [setOff.generation, List.countP_cons_of_pos (by simp [setOff.begins])]
      exact ⟨congrArg (· + 1) ih.1, setOff.below⟩

namespace Evaluation

variable {schedule : Schedule} {budget : Nat} {e e' : Evaluation} {a b : Agenda Task World}

/-! ## Where rounds start -/

theorem generation_of_mem_baseTasks {cx : Context} {t : Task} (ht : t ∈ baseTasks cx) :
    t.generation = 0 := by
  obtain ⟨clause, _, rfl⟩ := List.mem_map.1 ht
  rfl

theorem generation_of_mem_seededTasks {cx : Context} {delta : Assoc Relation (List Tuple)}
    {t : Task} (ht : t ∈ seededTasks cx delta) : t.generation = 0 := by
  obtain ⟨entry, _, ht⟩ := List.mem_flatMap.1 ht
  dsimp only at ht
  split at ht
  · cases ht
  · obtain ⟨clause, _, rfl⟩ := List.mem_map.1 ht
    rfl

/-- **The agenda is one that a round of the evaluation starts from**: with the base tasks, or with
the tasks that the delta of a round seeds which has ended well. -/
inductive Opens (e : Evaluation) : Agenda Task World → Prop
  | base : Opens e (e.agenda (baseTasks e.context))
  | next {a b : Agenda Task World} (h : Opens e a) (reaches : a.Reaches (Task.run e.context) b)
      (waiting : b.waiting = []) (fine : b.fault = none)
      (more : seededTasks e.context b.world.delta ≠ []) :
      Opens e ({ e with world := b.world }.agenda (seededTasks e.context b.world.delta))

theorem Opens.generation_eq_zero (h : e.Opens a) : ∀ t ∈ a.waiting, t.generation = 0 := by
  cases h with
  | base => exact fun t ht => generation_of_mem_baseTasks (List.mem_reverse.1 ht)
  | next => exact fun t ht => generation_of_mem_seededTasks (List.mem_reverse.1 ht)

theorem Opens.finished_eq (h : e.Opens a) : a.finished = [] := by
  cases h <;> rfl

/-! ## Whole evaluations and single rounds -/

/-- **A round adds its tasks to the history.** -/
theorem exists_ran {tasks : List Task} {result : Except Fault Unit}
    (zero : ∀ t ∈ tasks, t.generation = 0)
    (h : round schedule budget tasks e = some (e', result)) : e'.context = e.context ∧
      ∃ ran, e'.history = ran :: e.history ∧
        ∀ t ∈ ran, t.generation ≤ e.context.settings.maxGeneration := by
  obtain ⟨a, drain, _, rfl⟩ := exists_agenda h
  obtain ⟨reaches, _⟩ := Agenda.reaches_of_drain drain
  refine ⟨rfl, a.finished, rfl, fun t ht => ?_⟩
  obtain ⟨line, lineage⟩ := reaches.exists_lineage rfl t (List.mem_append_right _ ht)
  exact (lineage.generation_eq fun t ht => zero t (List.mem_reverse.1 ht)).2

/-- **All tasks that an evaluation has run** when it ends, well or not, are bounded. -/
theorem exists_bounded_history {result : Except Fault Summary}
    (h : run schedule budget e = some (e', result)) : ∃ rounds, e'.history = rounds ++ e.history ∧
      ∀ t ∈ rounds.flatten, t.generation ≤ e.context.settings.maxGeneration := by
  obtain ⟨e₁, _, ⟨_, rounds, history, bounded⟩, last, _⟩ := exists_last
    (P := fun e₁ _ => e₁.context = e.context ∧ ∃ rounds, e₁.history = rounds ++ e.history ∧
      ∀ t ∈ rounds.flatten, t.generation ≤ e.context.settings.maxGeneration)
    (fun e₁ e₂ number _ _ ⟨context, rounds, history, bounded⟩ _ hround => by
      obtain ⟨context', ran, history', bounded'⟩ :=
        exists_ran (fun _ => generation_of_mem_seededTasks) hround
      rw [context'.trans context]
      refine ⟨rfl, ran :: rounds, ?_, ?_⟩
      · rw [history', history, List.cons_append]
      · rw [List.flatten_cons]
        exact List.forall_mem_append.2 ⟨context ▸ bounded', bounded⟩)
    h fun e₁ _ hround => by
      obtain ⟨context, ran, history, bounded⟩ :=
        exists_ran (fun _ => generation_of_mem_baseTasks) hround
      exact ⟨context, [ran], history, by simpa using bounded⟩
  refine ⟨rounds, ?_, bounded⟩
  cases last with
  | done _ => exact history
  | failed => exact history

/-- **The generations of a round are bounded**, whatever its rules and in whatever order its tasks
run.  No task that waits or has run is past the highest generation.  A task hands on some of its
work, or it sets off tasks of the next generation with a batch that is not empty, and it only
changes the delta if its own generation is the highest.  So on every line of tasks, made one by the
other since the round began, there are no more tasks that were set off than there are
generations. -/
theorem generations_bounded (e : Evaluation) {a b : Agenda Task World} (opens : e.Opens a)
    (reaches : a.Reaches (Task.run e.context) b) :
    (∀ t ∈ b.waiting ++ b.finished, t.generation ≤ e.context.settings.maxGeneration ∧
        ∃ line, a.Lineage (Task.run e.context) t line) ∧
      (∀ task ∈ b.waiting,
        (∀ t ∈ (task.run e.context b.fault.isSome b.world).spawned,
          task.HandsOn t ∨ task.SetsOff e.context t) ∧
        ((task.run e.context b.fault.isSome b.world).world.delta ≠ b.world.delta →
          task.generation = e.context.settings.maxGeneration)) ∧
      ∀ t line, a.Lineage (Task.run e.context) t line →
        line.countP (fun t => !t.resumes) = t.generation ∧
          line.countP (fun t => !t.resumes) ≤ e.context.settings.maxGeneration := by
  have lines (t : Task) (line : List Task) (h : a.Lineage (Task.run e.context) t line) :=
    h.generation_eq opens.generation_eq_zero
  have bounded (t : Task) (ht : t ∈ b.waiting ++ b.finished) :
      t.generation ≤ e.context.settings.maxGeneration ∧
        ∃ line, a.Lineage (Task.run e.context) t line := by
    obtain ⟨line, lineage⟩ := reaches.exists_lineage opens.finished_eq t ht
    exact ⟨(lines t line lineage).2, line, lineage⟩
  refine ⟨bounded, fun task waits => ?_, fun t line lineage => ?_⟩
  · obtain ⟨made, delta⟩ := Task.run_makes e.context b.fault.isSome task b.world
    refine ⟨made, fun changed => ?_⟩
    have top := not_lt.1 fun below => changed (delta below)
    exact Nat.le_antisymm (bounded task (List.mem_append_left _ waits)).1 top
  · obtain ⟨count, bound⟩ := lines t line lineage
    exact ⟨count.symm, count ▸ bound⟩

end Evaluation

namespace Reach

/-- The start of the base round. -/
def opening : Agenda Task World := evaluation.agenda (Evaluation.baseTasks evaluation.context)

/-- The base round with the paths along one edge, which have set off a task. -/
def edged : Agenda Task World := opening.runAt (Task.run evaluation.context) 1

/-- **The paths along two edges wait in the delta**: the task that finds them was set off once, and
one generation is all that there is. -/
theorem exists_line : ∃ task line, opening.Reaches (Task.run evaluation.context) edged ∧
    task ∈ edged.waiting ∧
    (task.run evaluation.context edged.fault.isSome edged.world).world.delta ≠ edged.world.delta ∧
    opening.Lineage (Task.run evaluation.context) task line ∧
    line.countP (fun t => !t.resumes) = 1 := by
  obtain ⟨first, hfirst⟩ : ∃ t, opening.waiting[1]? = some t :=
    Option.isSome_iff_exists.1 (by cbv)
  obtain ⟨task, htask⟩ : ∃ t, edged.waiting[0]? = some t := Option.isSome_iff_exists.1 (by cbv)
  have reaches : opening.Reaches (Task.run evaluation.context) edged := .step .refl hfirst
  obtain ⟨bounded, steps, lines⟩ := Evaluation.generations_bounded evaluation .base reaches
  have waits : task ∈ edged.waiting := List.mem_of_getElem? htask
  have changed : (task.run evaluation.context edged.fault.isSome edged.world).world.delta ≠
      edged.world.delta := by
    have before : (edged.world.delta.get? path).isSome = false := by cbv
    have after : ((edged.runAt (Task.run evaluation.context) 0).world.delta.get? path).isSome =
        true := by cbv
    intro same
    rw [Agenda.runAt, htask] at after
    dsimp only at after
    rw [same, before] at after
    cases after
  obtain ⟨_, line, lineage⟩ := bounded task (List.mem_append_left _ waits)
  exact ⟨task, line, reaches, waits, changed, lineage,
    (lines task line lineage).1.trans ((steps task waits).2 changed)⟩

end Reach

end Datalog
