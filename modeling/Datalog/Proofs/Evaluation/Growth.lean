import Datalog.Proofs.Evaluation.Endings

/-!
# Proofs/Evaluation/Growth — what a task adds

A task changes the store only by adding facts of its head's relation, and what it puts into the
delta is new.  As long as it finds nothing new it changes neither of them, and the tasks that it
makes go on from its own (`Task.run_grows`).  All this holds however the task ends.
-/

namespace Datalog

/-- **The task goes on from another**, with less left to do. -/
structure Task.GoesOn (task t : Task) : Prop where
  clause : t.clause = task.clause
  seed : t.seed = task.seed
  remaining : t.remaining.length < task.remaining.length

/-- **A world after another**: the store has grown, by facts for the head, and so has the delta, by
tuples that are new to the store. -/
structure World.Grows (head : Head) (before after : World) : Prop where
  within : before.store.Holds.Within after.store.Holds
  rounds : after.counters.rounds = before.counters.rounds
  entered : ∀ r t, after.store.Holds r t → before.store.Holds r t ∨
    (r = head.relation ∧ t.length = head.args.length)
  delta : ∀ r, ∀ t ∈ (after.delta.get? r).getD [], t ∈ (before.delta.get? r).getD [] ∨
    (after.store.Holds r t ∧ ¬before.store.Holds r t)

/-- **Nothing has happened** but for the bookkeeping. -/
structure World.Rests (before after : World) : Prop where
  store : after.store = before.store
  delta : after.delta = before.delta
  newFacts : after.counters.newFacts = before.counters.newFacts

namespace World.Rests

variable {before world after : World}

theorem refl (world : World) : world.Rests world := ⟨rfl, rfl, rfl⟩

theorem trans (h : before.Rests world) (h' : world.Rests after) : before.Rests after :=
  ⟨h'.store.trans h.store, h'.delta.trans h.delta, h'.newFacts.trans h.newFacts⟩

end World.Rests

namespace Work

variable {cx : Context} {task : Task} {failed : Bool} {before : World} {w w' : Worker}

/-- **A worker that has found nothing new**: nothing is batched, and the tasks that it has made go
on from its own. -/
structure Quiet (before : World) (task : Task) (w : Worker) : Prop where
  rests : before.Rests w.world
  batch : w.batch = []
  spawned : ∀ t ∈ w.spawned, task.GoesOn t

/-- **The worker's world has grown**, and it is quiet unless the store has something new. -/
structure Grows (before : World) (task : Task) (w : Worker) : Prop where
  grows : before.Grows task.clause.head w.world
  quiet : w.world.store.Holds.Within before.store.Holds → Quiet before task w

namespace Grows

theorem start : Grows world task (task.worker world) where
  grows := ⟨.refl _, rfl, fun _ _ => .inl, fun _ _ => .inl⟩
  quiet _ := ⟨.refl _, rfl, nofun⟩

theorem blind : Blind (Grows before task) := by
  refine ⟨fun {w w'} idles h => ?_, fun {w} b h => ⟨h.grows, fun same => ?_⟩⟩
  · refine ⟨⟨?_, idles.rounds.trans h.grows.rounds, ?_, ?_⟩, fun same => ?_⟩
    · exact idles.store ▸ h.grows.within
    · exact idles.store ▸ h.grows.entered
    · exact idles.store ▸ idles.delta ▸ h.grows.delta
    · have quiet := h.quiet (idles.store ▸ same)
      exact ⟨quiet.rests.trans ⟨idles.store, idles.delta, idles.newFacts⟩,
        idles.batch.trans quiet.batch, idles.spawned ▸ quiet.spawned⟩
  · have quiet := h.quiet same
    exact ⟨quiet.rests, quiet.batch, quiet.spawned⟩

/-- **A fact that was not there** disturbs the quiet, whatever else is done with it. -/
theorem entering (h : Grows before task w) {tuple : Tuple}
    (arity : tuple.length = task.clause.head.args.length)
    (fresh : ¬w.world.store.Holds task.clause.head.relation tuple)
    (store : w'.world.store = (w.world.store.add task.clause.head.relation tuple).1)
    (rounds : w'.world.counters.rounds = w.world.counters.rounds)
    (delta : ∀ r, ∀ t ∈ (w'.world.delta.get? r).getD [], t ∈ (w.world.delta.get? r).getD [] ∨
      (r = task.clause.head.relation ∧ t = tuple)) : Grows before task w' := by
  have holds (r : Relation) (t : Tuple) : w'.world.store.Holds r t ↔
      w.world.store.Holds r t ∨ (r = task.clause.head.relation ∧ t = tuple) := by
    rw [store, Store.holds_add_iff]
  refine ⟨⟨fun r t ht => (holds r t).2 (.inl (h.grows.within r t ht)),
    rounds.trans h.grows.rounds, fun r t ht => ?_, fun r t ht => ?_⟩, fun same => ?_⟩
  · rcases (holds r t).1 ht with ht | ⟨rfl, rfl⟩
    · exact h.grows.entered r t ht
    · exact .inr ⟨rfl, arity⟩
  · rcases delta r t ht with ht | ⟨rfl, rfl⟩
    · refine (h.grows.delta r t ht).imp_right fun ⟨now, then'⟩ => ⟨(holds r t).2 (.inl now), then'⟩
    · refine .inr ⟨(holds _ _).2 (.inr ⟨rfl, rfl⟩), fun old => fresh (h.grows.within _ _ old)⟩
  · exact (fresh (h.grows.within _ _ (same _ _ ((holds _ _).2 (.inr ⟨rfl, rfl⟩))))).elim

/-- **A new tuple** that is kept. -/
theorem kept (h : Grows before task w) {tuple : Tuple}
    (arity : tuple.length = task.clause.head.args.length)
    (fresh : ¬w.world.store.Holds task.clause.head.relation tuple)
    (kept : Kept cx task tuple (entered task tuple w) w') : Grows before task w' := by
  cases kept with
  | idle | batched | fired => exact h.entering arity fresh rfl rfl fun _ _ => .inl
  | delayed =>
    refine h.entering arity fresh rfl rfl fun r t ht => ?_
    rw [Assoc.get?_alter] at ht
    split at ht
    · next same =>
      subst same
      rcases List.mem_cons.1 ht with rfl | ht
      · exact .inr ⟨rfl, rfl⟩
      · exact .inl ht
    · exact .inl ht

end Grows

/-- **Every stretch of a task** adds only what is new, and is quiet otherwise. -/
theorem grows_steady (cx : Context) (failed : Bool) :
    Steady cx task failed (Grows before task) (fun _ => True) fun _ _ => True := by
  refine .of_blind Grows.blind ?_ (fun w hw => ⟨fun _ w' ok => ⟨?_, trivial⟩, ?_⟩) ?_
  · rintro w slot goal rest bindings others left _ hw
    refine ⟨hw.grows, fun same => ⟨(hw.quiet same).rests, (hw.quiet same).batch,
      List.forall_mem_append.2 ⟨fun t ht => ?_, (hw.quiet same).spawned⟩⟩⟩
    obtain ⟨batch, _, rfl⟩ := List.mem_map.1 (List.mem_reverse.1 ht)
    exact ⟨rfl, rfl, left.length_le⟩
  · obtain ⟨tuple, value, ⟨_, idles⟩ | ⟨fresh, _, w₁, kept, idles⟩⟩ := conclude_ok ok
    · exact Grows.blind.idles idles hw
    · exact Grows.blind.idles idles (hw.kept (Tuple.length_of_evaluate value) fresh kept)
  · intro e w' h
    obtain ⟨rfl, _⟩ | ⟨tuple, m, value, misfit, rfl, _⟩ := conclude_error h
    · exact ⟨hw, trivial⟩
    · have arity := Tuple.length_of_evaluate value
      refine ⟨hw.entering arity (fun old => ?_) rfl rfl fun _ _ => .inl, trivial⟩
      rw [Store.add_of_mem old] at misfit
      cases misfit
  · intro w u w' hw ok
    obtain ⟨_, rfl⟩ | ⟨busy, idles⟩ := setOff_ok ok
    · exact hw
    · exact Grows.blind.idles idles ⟨hw.grows, fun same => (busy (hw.quiet same).batch).elim⟩

end Work

/-- **What a task adds is new**, however it ends.  If it adds nothing, the store and the delta are
as before, and the tasks that it makes go on from its own. -/
theorem Task.run_grows (cx : Context) (failed : Bool) (task : Task) (world : World) :
    world.Grows task.clause.head (task.run cx failed world).world ∧
      ((task.run cx failed world).world.store.Holds.Within world.store.Holds →
        world.Rests (task.run cx failed world).world ∧
          ∀ t ∈ (task.run cx failed world).spawned, task.GoesOn t) := by
  obtain ⟨w, ⟨grows, quiet⟩, ran, spawned, _⟩ := Task.run_maintains
    ((Work.grows_steady cx failed).work fun _ _ _ _ => trivial) Work.Grows.start
  rw [ran, spawned]
  exact ⟨grows, fun same => ⟨(quiet same).rests, (quiet same).spawned⟩⟩

end Datalog
