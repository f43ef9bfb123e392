import Datalog.Proofs.Evaluation.Endings
import Datalog.Proofs.Evaluation.Seeds
import Datalog.Proofs.Evaluation.Visits
import Datalog.Proofs.Filling
import Datalog.Proofs.Stratum

/-!
# Proofs/Evaluation/Confined — what tasks hold

If the clauses of a stratum pass a property of terms on, from what a step reads to what it binds and
from what is bound to the head (`PlannedClause.Carries`), the property spreads with the tasks: it
goes from the facts to the bindings, from these to new facts, and on to the tasks that they set off
(`Evaluation.confined_of_visits`).  Nothing is asked of the store but that what it can offer has the
property, and nothing of the way in which tasks end.
-/

namespace Datalog

variable {V : Term → Prop} {fns : Functions}

/-! ## Tuples and bindings -/

/-- The tuple consists of such terms. -/
def Tuple.Among (V : Term → Prop) (t : Tuple) : Prop := ∀ x ∈ t, V x

/-- Every variable is bound to such a term. -/
def Bindings.Among (V : Term → Prop) (b : Bindings) : Prop := ∀ v x, b.get? v = some x → V x

namespace Bindings.Among

variable {b : Bindings}

theorem empty : Bindings.Among V ∅ := fun _ _ h => nomatch h

theorem put (h : b.Among V) {v : Var} {x : Term} (hx : V x) : Bindings.Among V (b.put v x) := by
  intro w y hy
  rw [Assoc.get?_put] at hy
  split at hy
  · exact Option.some.inj hy ▸ hx
  · exact h w y hy

theorem putAll {pairs : List (Var × Term)} (h : b.Among V) (hp : ∀ e ∈ pairs, V e.2) :
    Bindings.Among V (b.putAll pairs) :=
  fun v x hx => (Assoc.mem_of_get?_putAll hx).elim (h v x) (hp (v, x))

/-- **A goal binds** what stands in the tuple. -/
theorem bind (h : b.Among V) {tuple : Tuple} (ht : tuple.Among V) (g : Goal) :
    Bindings.Among V (g.bind tuple b) := by
  rw [Goal.bind_eq_putAll]
  refine h.putAll fun e he => ?_
  obtain ⟨p, hp, he⟩ := List.mem_flatMap.1 he
  obtain ⟨v, _, rfl⟩ := List.mem_map.1 he
  exact ht _ (List.of_mem_zip hp).2

end Bindings.Among

/-- **The clause passes the property on**: from what is bound to what its steps bind, and to the
values of its head. -/
structure PlannedClause.Carries (fns : Functions) (V : Term → Prop) (c : PlannedClause) :
    Prop where
  performs : ∀ {slot}, slot ∈ c.body → ∀ {store : Store} {b b' : Bindings}, b.Among V →
    slot.perform fns store b = .ok (some b') → b'.Among V
  concludes : ∀ {b : Bindings} {xs : Tuple}, b.Among V →
    Tuple.evaluate b fns c.head.args = .ok xs → xs.Among V

/-! ## Tasks -/

/-- **A confined world**: whatever the store offers and whatever is in the delta consists of such
terms. -/
structure World.Confined (V : Term → Prop) (world : World) : Prop where
  offered : ∀ r t, world.store.Offers r t → t.Among V
  delta : ∀ r, ∀ t ∈ (world.delta.get? r).getD [], t.Among V

/-- **A confined task** runs a clause of the stratum, goes on at a position of its body, and holds
nothing but such terms. -/
structure Task.Confined (V : Term → Prop) (s : Stratum) (task : Task) : Prop where
  has : s.Has task.clause
  seed : ∀ tuples, task.seed = some tuples → ∀ t ∈ tuples, t.Among V
  resumes : ∀ r, task.resumption = some r → (∃ pre slot, task.clause.body = pre ++ slot :: r.rest) ∧
    (∀ t ∈ r.tuples, t.Among V) ∧ r.bindings.Among V

/-- What is left to do is the end of the body. -/
theorem Task.Confined.remaining {s : Stratum} {task : Task} (h : task.Confined V s) :
    task.remaining <:+ task.clause.body := by
  rw [Task.remaining]
  cases hr : task.resumption with
  | none => exact List.suffix_rfl
  | some r =>
    obtain ⟨⟨pre, slot, body⟩, _⟩ := h.resumes r hr
    rw [body]
    exact (List.suffix_cons slot r.rest).trans (List.suffix_append pre _)

namespace Work

variable {cx : Context} {task : Task} {w w' : Worker}

/-- **A confined worker.** -/
structure Confined (V : Term → Prop) (s : Stratum) (w : Worker) : Prop where
  world : w.world.Confined V
  bindings : w.bindings.Among V
  batch : ∀ t ∈ w.batch, t.Among V
  spawned : ∀ t ∈ w.spawned, t.Confined V s

namespace Confined

variable {s : Stratum}

theorem idles (h : Confined V s w) (idles : w.Idles w') : Confined V s w' where
  world := ⟨idles.store ▸ h.world.offered, idles.delta ▸ h.world.delta⟩
  bindings := idles.bindings ▸ h.bindings
  batch := idles.batch ▸ h.batch
  spawned := idles.spawned ▸ h.spawned

/-- **Tasks that go on** with confined tuples are confined. -/
theorem suffixes (h : Confined V s w) (confined : task.Confined V s) {slot : Slot} {goal : Goal}
    {rest : List Slot} {others : List (List Tuple)} (left : slot :: rest <:+ task.remaining)
    (found : ∀ t ∈ others.flatten, t.Among V) :
    Confined V s { w with
      spawned := (others.map (suffix task goal rest w.bindings)).reverse ++ w.spawned } := by
  refine { h with spawned := List.forall_mem_append.2 ⟨fun t ht => ?_, h.spawned⟩ }
  obtain ⟨pre, body⟩ := left.trans confined.remaining
  obtain ⟨batch, hbatch, rfl⟩ := List.mem_map.1 (List.mem_reverse.1 ht)
  refine ⟨confined.has, confined.seed, fun r hr => ?_⟩
  cases hr
  exact ⟨⟨pre, slot, body.symm⟩, fun t ht => found t (List.mem_flatten.2 ⟨batch, hbatch, ht⟩),
    h.bindings⟩

/-- **Tasks that are set off** are confined. -/
theorem fired (h : Confined V cx.stratum w) {batch : List Tuple}
    (hbatch : ∀ t ∈ batch, t.Among V) : Confined V cx.stratum
      { w with batch := [], spawned := (task.fired cx batch).reverse ++ w.spawned } where
  world := h.world
  bindings := h.bindings
  batch := nofun
  spawned := by
    intro t ht
    rcases List.mem_append.1 ht with ht | ht
    · obtain ⟨c, hc, rfl⟩ := List.mem_map.1 (List.mem_reverse.1 ht)
      exact ⟨.inr ⟨_, hc⟩, fun _ h => Option.some.inj h ▸ hbatch, nofun⟩
    · exact h.spawned t ht

/-- **A fact** in the store. -/
theorem storing (h : Confined V s w) {tuple : Tuple} (ht : tuple.Among V) :
    Confined V s (Work.storing task tuple w) where
  world :=
    { offered := by
        intro r' t ht'
        rcases Store.offers_of_add ht' with ht' | ⟨_, rfl⟩
        · exact h.world.offered r' t ht'
        · exact ht
      delta := h.world.delta }
  bindings := h.bindings
  batch := h.batch
  spawned := h.spawned

/-- **What becomes of it** is confined. -/
theorem kept (h : Confined V cx.stratum w) {tuple : Tuple} (ht : tuple.Among V)
    (kept : Kept cx task tuple w w') : Confined V cx.stratum w' := by
  have batch : ∀ t ∈ w.batch ++ [tuple], t.Among V :=
    List.forall_mem_append.2 ⟨h.batch, List.forall_mem_singleton.2 ht⟩
  cases kept with
  | idle => exact h
  | batched => exact ⟨h.world, h.bindings, batch, h.spawned⟩
  | fired => exact h.fired batch
  | delayed =>
    refine ⟨⟨h.world.offered, fun r t ht' => ?_⟩, h.bindings, h.batch, h.spawned⟩
    rw [Assoc.get?_alter] at ht'
    split at ht'
    · rcases List.mem_cons.1 ht' with rfl | ht'
      · exact ht
      · exact h.world.delta _ t ht'
    · exact h.world.delta r t ht'

end Confined

/-- **Every stretch of a confined task** keeps to such terms. -/
theorem confined_steady (failed : Bool) (carries : task.clause.Carries cx.functions V)
    (confined : task.Confined V cx.stratum) :
    Steady cx task failed (Confined V cx.stratum) (fun _ => True) fun _ t => t.Among V where
  finds := by
    refine fun {slot goal rest} _ _ => .within (fun _ _ => trivial) fun w hw =>
      ⟨fun tuples w' ok => ?_, fun e w' h => ?_⟩
    · obtain ⟨rfl, key, _, rfl⟩ := matching_ok ok
      refine ⟨hw, fun t ht => ?_⟩
      split at ht
      · next seed _ hseed => exact confined.seed seed hseed t (List.mem_of_mem_filter ht)
      · exact hw.world.offered _ t (Store.offers_of_mem_lookup (Listing.mem_lookup.1 ht))
    · obtain ⟨rfl, _⟩ := matching_error h
      exact ⟨hw, trivial⟩
  shares := by
    refine fun {slot goal rest tuples} left _ found => .of_sure .shareOut fun w first w' hw ok => ?_
    obtain ⟨others, rfl, idles⟩ := shareOut_ok ok
    obtain ⟨found, handed⟩ := List.forall_mem_append.1 found
    exact ⟨(hw.suffixes confined left handed).idles idles, found⟩
  takes := by
    refine fun {goal tuple} ht => .of_sure .take fun w _ w' hw ok => ?_
    have taken : Confined V cx.stratum { w with bindings := goal.bind tuple w.bindings } :=
      { hw with bindings := hw.bindings.bind ht goal }
    exact ⟨taken.idles (take_ok ok), trivial⟩
  performs := by
    refine fun {slot rest} left _ => .within (fun _ _ => trivial) fun w hw =>
      ⟨fun go w' ok => ?_, fun e w' h => ?_⟩
    · rw [perform_eq] at ok
      split at ok
      · next b hb =>
        cases ok
        have inBody := (left.trans confined.remaining).subset (List.mem_cons_self ..)
        exact ⟨{ hw with bindings := carries.performs inBody hw.bindings hb }, trivial⟩
      · cases ok
        exact ⟨hw, trivial⟩
      · cases ok
    · obtain ⟨rfl, _⟩ := perform_error h
      exact ⟨hw, trivial⟩
  concludes := by
    refine fun w hw => ⟨fun _ w' ok => ⟨?_, trivial⟩, fun e w' h => ⟨?_, trivial⟩⟩
    · obtain ⟨tuple, value, ⟨_, idles⟩ | ⟨_, _, w₁, kept, idles⟩⟩ := conclude_ok ok
      · exact hw.idles idles
      · have among := carries.concludes hw.bindings value
        have stored : Confined V cx.stratum (storing task tuple w) := hw.storing among
        have entered : Confined V cx.stratum (entered task tuple w) :=
          ⟨⟨stored.world.offered, hw.world.delta⟩, hw.bindings, hw.batch, hw.spawned⟩
        exact (entered.kept among kept).idles idles
    · obtain ⟨rfl, _⟩ | ⟨tuple, m, value, _, rfl, _⟩ := conclude_error h
      · exact hw
      · exact hw.storing (carries.concludes hw.bindings value)
  setsOff := .of_sure .setOff fun w _ w' hw ok => by
    obtain ⟨_, rfl⟩ | ⟨_, idles⟩ := setOff_ok ok
    · exact ⟨hw, trivial⟩
    · exact ⟨(hw.fired hw.batch).idles idles, trivial⟩
  records := .of_sure .record fun w _ w' hw ok => ⟨hw.idles (record_ok ok), trivial⟩

/-- The worker that a confined task starts with. -/
theorem Confined.start {s : Stratum} {world : World} (confined : task.Confined V s)
    (hworld : world.Confined V) : Confined V s (task.worker world) := by
  refine ⟨hworld, ?_, nofun, nofun⟩
  rw [Task.worker]
  cases hr : task.resumption with
  | none => exact .empty
  | some r => exact (confined.resumes r hr).2.2

/-- **A confined task** keeps to such terms, however it ends. -/
theorem run_confined (failed : Bool) {world : World}
    (carries : task.clause.Carries cx.functions V) (confined : task.Confined V cx.stratum)
    (hworld : world.Confined V) : (task.run cx failed world).world.Confined V ∧
      ∀ t ∈ (task.run cx failed world).spawned, t.Confined V cx.stratum := by
  obtain ⟨w, hw, ran, spawned, _⟩ := Task.run_maintains
    ((confined_steady failed carries confined).work fun r hr => (confined.resumes r hr).2.1)
    (.start confined hworld)
  exact ⟨ran ▸ hw.world, spawned ▸ hw.spawned⟩

end Work

/-! ## Evaluations -/

namespace Evaluation

variable {e : Evaluation} {a : Agenda Task World}

/-- The tasks of the base round hold nothing. -/
theorem confined_base {s : Stratum} {cx : Context} (h : cx.stratum = s) :
    ∀ t ∈ baseTasks cx, t.Confined V s := by
  intro t ht
  obtain ⟨c, hc, rfl⟩ := List.mem_map.1 ht
  exact ⟨.inl (h ▸ hc), nofun, nofun⟩

/-- The tasks of a further round hold what was in the delta. -/
theorem confined_seeded {cx : Context} {world : World} (h : world.Confined V) :
    ∀ t ∈ seededTasks cx world.delta, t.Confined V cx.stratum := by
  intro t ht
  rw [seededTasks_eq] at ht
  obtain ⟨s, hs, ht⟩ := List.mem_flatMap.1 ht
  obtain ⟨c, hc, rfl⟩ := List.mem_map.1 ht
  refine ⟨.inr ⟨_, hc⟩, fun tuples h' t ht => ?_, nofun⟩
  cases h'
  exact h.delta _ t (mem_of_drained hs ht)

/-- **Wherever an evaluation comes to**, the world and all waiting tasks are confined. -/
theorem confined_of_visits (carries : ∀ c, e.context.stratum.Has c →
      c.Carries e.context.functions V)
    (offered : ∀ r t, e.world.store.Offers r t → t.Among V) (visits : e.Visits a) :
    a.world.Confined V ∧ ∀ t ∈ a.waiting, t.Confined V e.context.stratum :=
  visits.keeps ⟨⟨offered, nofun⟩, confined_base rfl⟩
    (fun _ _ _ task world => Work.run_confined _ (carries _ task.has) task world)
    fun _ world => ⟨⟨world.offered, nofun⟩, confined_seeded world⟩

end Evaluation

end Datalog
