import Datalog.Proofs.Evaluation.Confined
import Datalog.Proofs.Planning

/-!
# Proofs/Evaluation/Values — what tasks are made of

Whatever a term is evaluated to, is put together from literals, from what its variables are bound
to and from what functions return.  So a property that constructors take over from their arguments,
such as being a value, is one that every clause passes on.  In a store that is fit every tuple has
the right arity and no index is too long for one: a task can only crash in a native function
(`Evaluation.tidy_of_visits`).
-/

namespace Datalog

variable {V : Term → Prop} {fns : Functions}

/-! ## Terms -/

/-- **A property of terms that constructors take over** from their arguments. -/
structure Term.Inherited (V : Term → Prop) : Prop where
  lit : ∀ v, V (.lit v)
  ctor_iff : ∀ f xs, V (.ctor f xs) ↔ ∀ x ∈ xs, V x

theorem Term.inherited_true : Term.Inherited fun _ => True := ⟨fun _ => trivial, by simp⟩

theorem Term.inherited_isValue : Term.Inherited fun x => x.isValue = true :=
  ⟨fun _ => rfl, fun _ _ => isValue_ctor_iff⟩

/-- **The functions return such terms** for such arguments. -/
def Functions.Respect (fns : Functions) (V : Term → Prop) : Prop :=
  ∀ name fn, fns.get? name = some fn → ∀ xs y, (∀ x ∈ xs, V x) → fn.run xs = .ok y → V y

/-- **A value is made of what it is read from.** -/
theorem Term.Inherited.value (inherited : Term.Inherited V) (respect : fns.Respect V) {env : Env}
    (henv : ∀ v x, env v = some x → V x) {t x : Term} (h : t.value? env fns = some x) : V x := by
  have all {args xs : List Term}
      (ih : ∀ a ∈ args, ∀ x, a.value? env fns = some x → V x)
      (h : List.Forall₂ (fun t x => t.value? env fns = some x) args xs) : ∀ x ∈ xs, V x := by
    intro x hx
    obtain ⟨a, ha, hax⟩ := Outcome.exists_of_forall₂ h.flip hx
    exact ih a ha x hax
  induction t generalizing x with
  | var v => exact henv v x ((Term.value?_var v).symm.trans h)
  | lit v => exact Option.some.inj h ▸ inherited.lit v
  | ctor f args ih =>
    obtain ⟨xs, rfl, hxs⟩ := Term.value?_ctor_eq_some_iff.1 h
    exact (inherited.ctor_iff f xs).2 (all (fun a ha x => ih a ha) hxs)
  | call f args ih =>
    rw [Term.value?_call] at h
    obtain ⟨xs, hxs, h⟩ := Option.bind_eq_some_iff.1 h
    have hxs := all (fun a ha x => ih a ha) (Term.values?_eq_some_iff.1 hxs)
    have ok := Outcome.toOption_eq_some_iff.1 h
    rw [Functions.call] at ok
    split at ok
    · cases ok
    · next fn hfn =>
      split at ok
      · exact respect f fn hfn xs x hxs ok
      · cases ok

/-! ## Clauses -/

namespace Bindings.Among

variable {b b' : Bindings}

variable (inherited : Term.Inherited V) (respect : fns.Respect V)
include inherited respect

theorem value (h : b.Among V) {t x : Term} (hx : t.evaluate b fns = .ok x) : V x :=
  inherited.value respect h (Term.evaluate_eq_ok_iff.1 hx)

theorem tuple (h : b.Among V) {ts xs : Tuple} (hxs : Tuple.evaluate b fns ts = .ok xs) :
    xs.Among V := by
  intro x hx
  rw [Tuple.evaluate, Outcome.mapM_ok_iff] at hxs
  obtain ⟨t, _, ht⟩ := Outcome.exists_of_forall₂ hxs.flip hx
  exact h.value inherited respect ht

/-- **A step binds** values of its terms, or parts of them. -/
theorem perform (h : b.Among V) {store : Store} {slot : Slot}
    (ok : slot.perform fns store b = .ok (some b')) : b'.Among V := by
  obtain ⟨step, index, split⟩ := slot
  cases step with
  | assign v t =>
    obtain ⟨c, hc, hb⟩ := Outcome.except_map_ok_iff.1 ok
    obtain ⟨x, hx, hc⟩ := Outcome.except_bind_ok_iff.1 hc
    cases hc
    cases hb
    exact h.put (h.value inherited respect hx)
  | check l r negated =>
    obtain ⟨go, _, hb⟩ := Outcome.except_map_ok_iff.1 ok
    split at hb
    · exact Option.some.inj hb ▸ h
    · cases hb
  | destruct t f ys =>
    obtain ⟨x, hx, hb⟩ := Outcome.except_bind_ok_iff.1 ok
    cases x with
    | ctor g xs =>
      have hxs := (inherited.ctor_iff g xs).1 (h.value inherited respect hx)
      dsimp only at hb
      split at hb
      · cases hb
        exact h.putAll fun e he => hxs _ (List.of_mem_zip he).2
      · cases hb
    | var | lit | call => cases hb
  | lookup g =>
    rw [Slot.perform] at ok
    dsimp only at ok
    split at ok
    · split at ok
      · cases ok
      · cases ok
        exact h
    · cases ok

end Bindings.Among

/-- **Every clause passes on** what constructors and functions take over. -/
theorem PlannedClause.Carries.of_inherited (inherited : Term.Inherited V) (respect : fns.Respect V)
    (c : PlannedClause) : c.Carries fns V where
  performs := fun _ _ _ _ h ok => h.perform inherited respect ok
  concludes := fun h value => h.tuple inherited respect value

/-! ## Crashes -/

/-- **A crash comes from a native function.** -/
def Abort.Native (fns : Functions) (e : Abort) : Prop :=
  ∀ message, e = .crash message → ∃ name fn xs, fns.get? name = some fn ∧ fn.arity = xs.length ∧
    fn.run xs = .error (.crash message)

namespace Abort.Native

variable {b : Bindings} {e : Abort}

theorem fault {f : Fault} : (Abort.fault f).Native fns := nofun

theorem within (h : e.Native fns) (context : Fault → Fault) : (e.within context).Native fns := by
  cases e with
  | fault f => exact fault
  | crash message => exact h

theorem of_evaluate {t : Term} (h : t.evaluate b fns = .error e) : e.Native fns := by
  rw [Term.evaluate_eq_valueIn] at h
  obtain ⟨_, _, _, rfl⟩ | ⟨name, xs, _, h⟩ := Term.valueIn_error h
  · exact fault
  · obtain rfl | ⟨fn, hfn, ⟨_, rfl⟩ | ⟨arity, h⟩⟩ := Functions.call_error h
    · exact fault
    · exact fault
    · rintro message rfl
      exact ⟨name, fn, xs, hfn, arity, h⟩

theorem of_tuple {ts : Tuple} (h : Tuple.evaluate b fns ts = .error e) : e.Native fns := by
  obtain ⟨_, _, h⟩ := Outcome.exists_of_mapM_error h
  exact of_evaluate h

theorem of_key {g : Goal} (h : g.key fns b = .error e) : e.Native fns := by
  obtain ⟨_, _, h⟩ := Goal.exists_of_key_error h
  exact of_evaluate h

theorem of_perform {store : Store} {slot : Slot} (h : slot.perform fns store b = .error e) :
    e.Native fns := by
  obtain ⟨_, _, h⟩ := Slot.exists_of_perform_error h
  exact of_evaluate h

end Abort.Native

/-! ## Tasks -/

/-- **A world in order**: it is confined to such terms, and its store is fit. -/
structure World.Tidy (V : Term → Prop) (world : World) : Prop extends world.Confined V where
  fit : world.store.Fit

theorem World.Tidy.stored {world : World} (h : world.Tidy V) (r : Relation) (t : Tuple)
    (held : world.store.Holds r t) : t.Among V :=
  h.offered r t (.inl held)

namespace Work

variable {cx : Context} {task : Task}

/-- **A fit store stays fit**, and what stops a task is a fault or the crash of a native
function. -/
theorem fit_steady (failed : Bool) (orderly : task.clause.clause.Orderly) :
    Steady cx task failed (fun w => w.world.store.Fit) (Abort.Native cx.functions)
      fun _ _ => True where
  finds := by
    refine fun {slot goal rest} _ _ => .within (fun _ native => native.within _) fun w hw =>
      ⟨fun tuples w' ok => ?_, fun e w' h => ?_⟩
    · obtain ⟨rfl, _⟩ := matching_ok ok
      exact ⟨hw, fun _ _ => trivial⟩
    · obtain ⟨rfl, h⟩ := matching_error h
      exact ⟨hw, .of_key h⟩
  shares := fun _ _ _ => .of_sure .shareOut fun w first w' hw ok => by
    obtain ⟨_, _, idles⟩ := shareOut_ok ok
    exact ⟨idles.store ▸ hw, fun _ _ => trivial⟩
  takes := fun _ => .of_sure .take fun _ _ _ hw ok => ⟨(take_ok ok).store ▸ hw, trivial⟩
  performs := by
    refine fun {slot rest} _ _ => .within (fun _ native => native.within _) fun w hw =>
      ⟨fun go w' ok => ?_, fun e w' h => ?_⟩
    · rw [perform_eq] at ok
      split at ok
      · cases ok
        exact ⟨hw, trivial⟩
      · cases ok
        exact ⟨hw, trivial⟩
      · cases ok
    · obtain ⟨rfl, h⟩ := perform_error h
      exact ⟨hw, .of_perform h⟩
  concludes := by
    refine fun w hw => ⟨fun _ w' ok => ⟨?_, trivial⟩, fun e w' h => ?_⟩
    · obtain ⟨tuple, value, ⟨_, idles⟩ | ⟨_, _, w₁, kept, idles⟩⟩ := conclude_ok ok
      · exact idles.store ▸ hw
      · have fit := hw.add (orderly.length_eq value)
        cases kept <;> exact idles.store ▸ fit
    · obtain ⟨rfl, e', none, rfl⟩ | ⟨tuple, m, value, misfit, _⟩ := conclude_error h
      · exact ⟨hw, Abort.Native.within (.of_tuple none) _⟩
      · exact (hw.shaped.fits (orderly.length_eq value) m misfit).elim
  setsOff := .of_sure .setOff fun w _ w' hw ok => by
    obtain ⟨_, rfl⟩ | ⟨_, idles⟩ := setOff_ok ok
    · exact ⟨hw, trivial⟩
    · exact ⟨idles.store ▸ hw, trivial⟩
  records := .of_sure .record fun w _ w' hw ok => ⟨(record_ok ok).store ▸ hw, trivial⟩

/-- **A task in order** leaves order, however it ends, and crashes only in a native function. -/
theorem run_tidy (inherited : Term.Inherited V) (respect : cx.functions.Respect V)
    (orderly : ∀ c, cx.stratum.Has c → c.clause.Orderly) (failed : Bool) {world : World}
    (confined : task.Confined V cx.stratum) (hworld : world.Tidy V) :
    (task.run cx failed world).world.Tidy V ∧
      (∀ t ∈ (task.run cx failed world).spawned, t.Confined V cx.stratum) ∧
      ∀ e, (task.run cx failed world).result = .error e → e.Native cx.functions := by
  obtain ⟨world', spawned⟩ := run_confined failed (.of_inherited inherited respect _)
    confined hworld.toConfined
  obtain ⟨w, fit, ran, _, error⟩ := Task.run_maintains
    ((fit_steady failed (orderly _ confined.has)).work fun _ _ _ _ => trivial) hworld.fit
  refine ⟨⟨world', ran ▸ fit⟩, spawned, fun e he => ?_⟩
  obtain ⟨e', native, rfl⟩ := error e he
  exact native.within _

end Work

/-! ## Evaluations -/

/-- **Wherever an evaluation comes to**, the world and all waiting tasks are in order. -/
theorem Evaluation.tidy_of_visits {e : Evaluation} {a : Agenda Task World}
    (inherited : Term.Inherited V) (respect : e.context.functions.Respect V)
    (orderly : ∀ c, e.context.stratum.Has c → c.clause.Orderly) (fit : e.world.store.Fit)
    (stored : ∀ r t, e.world.store.Holds r t → t.Among V) (visits : e.Visits a) :
    a.world.Tidy V ∧ ∀ t ∈ a.waiting, t.Confined V e.context.stratum := by
  refine visits.keeps ⟨⟨⟨fun r t offers => ?_, nofun⟩, fit⟩, confined_base rfl⟩
    (fun failed task world confined tidy => ?_)
    fun _ tidy => ⟨⟨⟨tidy.offered, nofun⟩, tidy.fit⟩, confined_seeded tidy.toConfined⟩
  · exact stored r t (fit.filled.holds_of_offers offers)
  · obtain ⟨world', spawned, _⟩ :=
      Work.run_tidy inherited respect orderly failed confined tidy
    exact ⟨world', spawned⟩

end Datalog
