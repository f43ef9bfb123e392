import Datalog.Proofs.Evaluation.Work
import Datalog.Proofs.Store

/-!
# Proofs/Evaluation/Conclude — what becomes of a derived fact

While no task has failed, a fact that is new joins the batch, completes a batch that is then set
off, waits in the delta, or is of a relation that sets nothing off (`Work.Kept`).  A task ends by
setting off what is still batched (`Work.settle_ok`), so an invariant of searching holds of a whole
task if concluding keeps it (`Work.Keeps.approach`).
-/

namespace Datalog

/-- The tasks that a batch sets off. -/
def Task.fired (cx : Context) (task : Task) (batch : List Tuple) : List Task :=
  (cx.stratum.firedBy task.clause.head.relation).map fun clause =>
    { clause, seed := some batch, generation := task.generation + 1 }

namespace Work

variable {cx : Context} {task : Task} {failed : Bool} {w w' : Worker}

/-! ## New tuples -/

/-- **A batch is set off** as soon as there is one, unless some task has failed. -/
theorem setOff_ok {u : Unit} (ok : setOff cx task failed w = .ok u w') :
    ((w.batch = [] ∨ failed = true) ∧ w = w') ∨ (w.batch ≠ [] ∧ ({ w with
      batch := [], spawned := (task.fired cx w.batch).reverse ++ w.spawned } : Worker).Idles w') := by
  rw [setOff] at ok
  obtain ⟨_, _, hget, ok⟩ := Outcome.bind_ok_iff.1 ok
  obtain ⟨rfl, rfl⟩ := Outcome.get_ok_iff.1 hget
  split at ok
  · next idle =>
    obtain ⟨_, rfl⟩ := Outcome.pure_ok_iff.1 ok
    exact .inl ⟨by simpa using idle, rfl⟩
  · next busy =>
    obtain ⟨_, w₁, hmodify, ok⟩ := Outcome.bind_ok_iff.1 ok
    obtain rfl := Outcome.modify_ok_iff.1 hmodify
    exact .inr ⟨fun hempty => busy (by rw [hempty]; rfl), forM_spawn_ok ok⟩

/-- The worker with a tuple in the store, and in as many indices as can take it. -/
def storing (task : Task) (tuple : Tuple) (w : Worker) : Worker :=
  { w with world.store := (w.world.store.add task.clause.head.relation tuple).1 }

/-- **Storing a tuple** changes the store, and fails if an index cannot take it. -/
theorem store_eq {tuple : Tuple} : store task tuple w =
    match (w.world.store.add task.clause.head.relation tuple).2 with
    | .added => .ok true (storing task tuple w)
    | .present => .ok false (storing task tuple w)
    | .misfit m => .error (.crash m.message) (storing task tuple w) := by
  obtain ⟨stored, insertion, hadd⟩ :
      ∃ stored insertion, w.world.store.add task.clause.head.relation tuple =
        (stored, insertion) := ⟨_, _, rfl⟩
  rw [store, Outcome.get_bind, storing]
  dsimp only
  rw [hadd]
  cases insertion <;> rfl

/-- Storing a tuple says whether it is new. -/
theorem store_ok {tuple : Tuple} {new : Bool} (ok : store task tuple w = .ok new w') :
    w' = storing task tuple w ∧
      (∀ m, (w.world.store.add task.clause.head.relation tuple).2 ≠ .misfit m) ∧
      (new = false ↔ Store.Holds w.world.store task.clause.head.relation tuple) := by
  rw [store_eq] at ok
  cases hadd : (w.world.store.add task.clause.head.relation tuple).2 with
  | added =>
    rw [hadd] at ok
    cases ok
    refine ⟨rfl, nofun, nofun, fun old => ?_⟩
    rw [Store.add_of_mem old] at hadd
    cases hadd
  | present =>
    rw [hadd] at ok
    cases ok
    exact ⟨rfl, nofun, fun _ => Store.add_eq_present_iff.1 hadd, fun _ => rfl⟩
  | misfit m =>
    rw [hadd] at ok
    cases ok

/-- **What becomes of a new tuple**, but for the bookkeeping: below the highest generation it is
batched, and at the highest it waits in the delta. -/
inductive Kept (cx : Context) (task : Task) (tuple : Tuple) (w : Worker) : Worker → Prop
  | idle (inert : cx.stratum.recursive.contains task.clause.head.relation = false) :
      Kept cx task tuple w w
  | batched (below : task.generation < cx.settings.maxGeneration) :
      Kept cx task tuple w { w with batch := w.batch ++ [tuple] }
  | fired (below : task.generation < cx.settings.maxGeneration) : Kept cx task tuple w { w with
      batch := [], spawned := (task.fired cx (w.batch ++ [tuple])).reverse ++ w.spawned }
  | delayed (top : cx.settings.maxGeneration ≤ task.generation) : Kept cx task tuple w { w with
      world.delta := w.world.delta.alter task.clause.head.relation fun ts => tuple :: ts.getD [] }

/-- Bookkeeping makes no difference to what becomes of a tuple. -/
theorem Kept.of_idles {tuple : Tuple} {v : Worker} (idles : w.Idles w')
    (kept : Kept cx task tuple w' v) : ∃ v', Kept cx task tuple w v' ∧ v'.Idles v := by
  have ⟨hs, hd, hb, hbatch, hspawned, hn, hr⟩ := idles
  cases kept with
  | idle inert => exact ⟨w, .idle inert, idles⟩
  | batched below =>
    exact ⟨_, .batched below, hs, hd, hb, congrArg (· ++ [tuple]) hbatch, hspawned, hn, hr⟩
  | fired below => exact ⟨_, .fired below, hs, hd, hb, rfl, by rw [hbatch, hspawned], hn, hr⟩
  | delayed top => exact ⟨_, .delayed top, hs, by rw [hd], hb, hbatch, hspawned, hn, hr⟩

theorem keep_ok {tuple : Tuple} {u : Unit} (ok : keep cx task failed tuple w = .ok u w') :
    ∃ w₁, Kept cx task tuple w w₁ ∧ w₁.Idles w' := by
  rw [keep] at ok
  dsimp only at ok
  split at ok
  · split at ok
    · next below =>
      obtain ⟨_, w₁, hmodify, ok⟩ := Outcome.bind_ok_iff.1 ok
      obtain rfl := Outcome.modify_ok_iff.1 hmodify
      obtain ⟨_, _, hget, ok⟩ := Outcome.bind_ok_iff.1 ok
      obtain ⟨rfl, rfl⟩ := Outcome.get_ok_iff.1 hget
      split at ok
      · rcases setOff_ok ok with ⟨_, rfl⟩ | ⟨_, idles⟩
        · exact ⟨_, .batched below, .refl _⟩
        · exact ⟨_, .fired below, idles⟩
      · obtain ⟨_, rfl⟩ := Outcome.pure_ok_iff.1 ok
        exact ⟨_, .batched below, .refl _⟩
    · next top =>
      obtain rfl := Outcome.modify_ok_iff.1 ok
      exact ⟨_, .delayed (not_lt.1 top), .refl _⟩
  · next inert =>
    obtain ⟨_, rfl⟩ := Outcome.pure_ok_iff.1 ok
    exact ⟨_, .idle (by simpa using inert), .refl _⟩

/-- The worker with a tuple in the store that is new to it, and counted. -/
def entered (task : Task) (tuple : Tuple) (w : Worker) : Worker := { w with
  world.store := (w.world.store.add task.clause.head.relation tuple).1
  world.counters.newFacts := w.world.counters.newFacts + 1 }

/-- What happens to a head that has a value. -/
def enter (cx : Context) (task : Task) (failed : Bool) (tuple : Tuple) : Work Unit := do
  if ← store task tuple then
    count fun c => { c with newFacts := c.newFacts + 1 }
    echo cx task tuple
    keep cx task failed tuple
  else if cx.settings.recordWork then
    count fun c => { c with duplicates := c.duplicates + 1 }

theorem conclude_eq : conclude cx task failed w =
    match Tuple.evaluate w.bindings cx.functions task.clause.head.args with
    | .ok tuple => enter cx task failed tuple w
    | .error e => .error (e.within task.clause.head.blame) w := by
  change (within task.clause.head.blame (ofExcept (Tuple.evaluate w.bindings cx.functions
    task.clause.head.args)) >>= enter cx task failed) w = _
  cases Tuple.evaluate w.bindings cx.functions task.clause.head.args <;> rfl

/-- **A conclusion**: the head's values were stored before, or they are now and are kept. -/
theorem conclude_ok {u : Unit} (ok : conclude cx task failed w = .ok u w') :
    ∃ tuple, Tuple.evaluate w.bindings cx.functions task.clause.head.args = .ok tuple ∧
      ((Store.Holds w.world.store task.clause.head.relation tuple ∧ w.Idles w') ∨
        (¬Store.Holds w.world.store task.clause.head.relation tuple ∧
          (∀ m, (w.world.store.add task.clause.head.relation tuple).2 ≠ .misfit m) ∧
          ∃ w₁, Kept cx task tuple (entered task tuple w) w₁ ∧ w₁.Idles w')) := by
  rw [conclude_eq] at ok
  cases value : Tuple.evaluate w.bindings cx.functions task.clause.head.args with
  | error e =>
    rw [value] at ok
    cases ok
  | ok tuple =>
    rw [value] at ok
    refine ⟨tuple, rfl, ?_⟩
    obtain ⟨new, _, hstore, ok⟩ := Outcome.bind_ok_iff.1 ok
    obtain ⟨rfl, fits, hnew⟩ := store_ok hstore
    cases new with
    | true =>
      have fresh : ¬Store.Holds w.world.store task.clause.head.relation tuple := fun h => by
        cases hnew.2 h
      rw [if_pos rfl] at ok
      obtain ⟨_, w₁, hcount, ok⟩ := Outcome.bind_ok_iff.1 ok
      obtain rfl := Outcome.modify_ok_iff.1 hcount
      obtain ⟨_, w₂, hecho, ok⟩ := Outcome.bind_ok_iff.1 ok
      obtain ⟨w₃, kept, idles⟩ := keep_ok ok
      obtain ⟨w₄, kept, idles'⟩ := kept.of_idles (echo_ok hecho)
      exact .inr ⟨fresh, fits, w₄, kept, idles'.trans idles⟩
    | false =>
      have old := hnew.1 rfl
      refine .inl ⟨old, ?_⟩
      rw [storing, Store.add_of_mem old, if_neg Bool.false_ne_true] at ok
      split at ok
      · exact count_ok ok (fun _ => rfl) fun _ => rfl
      · obtain ⟨_, rfl⟩ := Outcome.pure_ok_iff.1 ok
        exact .refl _

/-- **A conclusion that fails** has changed nothing, unless an index could not take the tuple; then
it has stored it. -/
theorem conclude_error {e : Abort} (h : conclude cx task failed w = .error e w') :
    (w' = w ∧ ∃ e', Tuple.evaluate w.bindings cx.functions task.clause.head.args = .error e' ∧
      e = e'.within task.clause.head.blame) ∨
    ∃ tuple m, Tuple.evaluate w.bindings cx.functions task.clause.head.args = .ok tuple ∧
      (w.world.store.add task.clause.head.relation tuple).2 = .misfit m ∧
        w' = storing task tuple w ∧ e = .crash m.message := by
  rw [conclude_eq] at h
  cases value : Tuple.evaluate w.bindings cx.functions task.clause.head.args with
  | error e' =>
    rw [value] at h
    cases h
    exact .inl ⟨rfl, e', rfl, rfl⟩
  | ok tuple =>
    rw [value] at h
    rcases Outcome.bind_error_iff.1 h with h | ⟨new, w₁, _, h⟩
    · rw [store_eq] at h
      cases hadd : (w.world.store.add task.clause.head.relation tuple).2 with
      | misfit m =>
        rw [hadd] at h
        cases h
        exact .inr ⟨tuple, m, rfl, hadd, rfl, rfl⟩
      | added | present =>
        rw [hadd] at h
        cases h
    · exfalso
      refine Sure.ite (.bind .count fun _ => .bind .echo fun _ => .keep) ?_ w₁ e w' h
      exact .ite .count .pure

/-! ## The end of a task -/

/-- **A task ends** by setting off what is still batched. -/
theorem settle_ok {work : Work Unit} {u : Unit} (ok : settle cx task failed work w = .ok u w') :
    ∃ w₁ w₂, work w = .ok () w₁ ∧ setOff cx task failed w₁ = .ok () w₂ ∧ w₂.Idles w' := by
  rw [settle] at ok
  cases hwork : work w with
  | ok u w₁ =>
    rw [hwork] at ok
    obtain ⟨_, w₂, hsetOff, ok⟩ := Outcome.bind_ok_iff.1 ok
    exact ⟨w₁, w₂, rfl, hsetOff, record_ok ok⟩
  | error abort w₁ =>
    rw [hwork] at ok
    cases abort with
    | fault fault =>
      obtain ⟨_, _, _, ok⟩ := Outcome.bind_ok_iff.1 ok
      exact (Outcome.throw_ok_iff.1 ok).elim
    | crash message => cases ok

/-- **A task that fails** sets off what is batched, unless it crashes. -/
theorem settle_error {work : Work Unit} {e : Abort}
    (h : settle cx task failed work w = .error e w') :
    ∃ e' w₁, work w = .error e' w₁ ∧
      (w' = w₁ ∨ ∃ w₂, setOff cx task failed w₁ = .ok () w₂ ∧ w₂.Idles w') := by
  have sure : Sure (do
      setOff cx task failed
      record cx task.clause) := .bind .setOff fun _ => .record
  rw [settle] at h
  cases hwork : work w with
  | ok u w₁ =>
    rw [hwork] at h
    exact (sure w₁ e w' h).elim
  | error abort w₁ =>
    rw [hwork] at h
    cases abort with
    | fault fault =>
      obtain ⟨_, w₃, hfinish, h⟩ := sure.bind_error h
      obtain ⟨_, rfl⟩ := Outcome.throw_error_iff.1 h
      obtain ⟨_, w₂, hsetOff, hrecord⟩ := Outcome.bind_ok_iff.1 hfinish
      exact ⟨_, w₁, rfl, .inr ⟨w₂, hsetOff, record_ok hrecord⟩⟩
    | crash message =>
      cases h
      exact ⟨_, _, rfl, .inl rfl⟩

/-- What is batched is set off in the end. -/
theorem batch_of_setOff {u : Unit} (ok : setOff cx task false w = .ok u w') : w'.batch = [] := by
  rcases setOff_ok ok with ⟨hempty, rfl⟩ | ⟨_, idles⟩
  · exact hempty.resolve_right Bool.false_ne_true
  · exact idles.batch

namespace Keeps

variable {I : Worker → Prop} (blind : Blind I)
  (suffixes : ∀ (w : Worker) (goal : Goal) (rest : List Slot) (bindings : Bindings)
    (others : List (List Tuple)), I w →
    I { w with spawned := (others.map (suffix task goal rest bindings)).reverse ++ w.spawned })
  (concludes : Keeps I (conclude cx task false)) (setsOff : Keeps I (setOff cx task false))
include blind

/-- With nothing batched the invariant is blind to the same. -/
theorem blind_settled : Blind fun w => I w ∧ w.batch = [] :=
  ⟨fun idles h => ⟨blind.idles idles h.1, idles.batch.trans h.2⟩,
    fun b h => ⟨blind.bindings b h.1, h.2⟩⟩

include setsOff

theorem settle {work : Work Unit} (hwork : Keeps I work) :
    Keeps (fun w => I w ∧ w.batch = []) (settle cx task false work) := by
  intro w u w' hw ok
  obtain ⟨w₁, w₂, hwork', hsetOff, idles⟩ := settle_ok ok
  have h₁ := hwork w () w₁ hw.1 hwork'
  exact ⟨blind.idles idles (setsOff w₁ () w₂ h₁ hsetOff),
    idles.batch.trans (batch_of_setOff hsetOff)⟩

include suffixes concludes

theorem resume {goal : Goal} {rest : List Slot} {tuples : List Tuple} :
    Keeps (fun w => I w ∧ w.batch = []) (resume cx task false goal rest tuples) :=
  .settle blind setsOff
    (.forM fun _ => .bind (.take blind) fun _ => .search blind suffixes concludes)

/-- **A task keeps the invariant** if concluding and setting off keep it. -/
theorem approach {slots : List Slot} :
    Keeps (fun w => I w ∧ w.batch = []) (approach cx task false slots) := by
  have blind' := blind_settled blind
  induction slots with
  | nil => exact .settle blind setsOff concludes
  | cons slot rest ih =>
    rw [Work.approach]
    split
    · refine .bind (.within .matching) fun tuples => .bind (.record blind') fun _ => ?_
      refine .bind (.shareOut blind' fun w goal rest b others h => ?_) fun first => ?_
      · exact ⟨suffixes w goal rest b others h.1, h.2⟩
      · exact .resume blind suffixes concludes setsOff
    · exact .bind (.within (.perform blind')) fun _ => .ite ih (.record blind')

/-- **The work of a task.** -/
theorem work : Keeps (fun w => I w ∧ w.batch = []) (task.work cx false) := by
  rw [Task.work]
  split
  · exact .approach blind suffixes concludes setsOff
  · exact .resume blind suffixes concludes setsOff

end Keeps

end Work

namespace Task

variable {cx : Context} {task : Task} {failed : Bool} {world : World}

/-- **The worker that a task starts with.** -/
def worker (task : Task) (world : World) : Worker where
  world := world
  bindings := (task.resumption.map (·.bindings)).getD ∅

theorem run_eq : task.run cx failed world =
    match task.work cx failed (task.worker world) with
    | .ok _ w => { world := w.world, spawned := w.spawned, result := .ok () }
    | .error abort w => { world := w.world, spawned := w.spawned,
                          result := .error (abort.within (.inRule task.clause.text)) } := rfl

/-- **A run that ends well** is work that ends well. -/
theorem run_ok (ok : (task.run cx failed world).result = .ok ()) : ∃ w,
    task.work cx failed (task.worker world) = .ok () w ∧
      task.run cx failed world = ⟨w.world, w.spawned, .ok ()⟩ := by
  rw [run_eq] at ok ⊢
  cases hwork : task.work cx failed (task.worker world) with
  | ok u w => exact ⟨w, rfl, rfl⟩
  | error abort w =>
    rw [hwork] at ok
    cases ok

/-- **A run that fails** is work that fails. -/
theorem run_error {e : Abort} (h : (task.run cx failed world).result = .error e) : ∃ e' w,
    task.work cx failed (task.worker world) = .error e' w ∧
      task.run cx failed world = ⟨w.world, w.spawned, .error e⟩ := by
  rw [run_eq] at h ⊢
  cases hwork : task.work cx failed (task.worker world) with
  | ok u w =>
    rw [hwork] at h
    cases h
  | error abort w =>
    rw [hwork] at h
    exact ⟨abort, w, rfl, congrArg (Outcome.mk w.world w.spawned) h⟩

end Task

end Datalog
