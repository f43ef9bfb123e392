import Datalog.Function.Builtin
import Datalog.Proofs.Evaluation.Failure
import Datalog.Proofs.Evaluation.Fixpoint

/-!
# Proofs/Evaluation/Confluence — what schedules and settings can change

Evaluations of a stratum that end well leave the same facts.  Whether they end well is another
matter, since a recursive clause runs its steps in an order of its own, and may come to a call
that its base clause never makes.  If no clause can fault, every evaluation ends well; if a base
clause faults on the facts at the start, none does (`Evaluation.not_ok_of_faults`), for a base
task owes whatever is due in it until the tuple is stored (`World.Owes`).  Between the two it
depends on schedule and settings (`Guarded.exists_disagreement`).
-/

namespace Datalog

section

variable {cx cx' : Context} {rules : List Rule} {start G : Facts} {task : Task}
  {others tasks : List Task} {world world' : World}

/-- Where a clause faults, any tuple is due. -/
theorem Clause.Faults.due {s : Scene} {c : Clause} (h : c.Faults s) (tuple : Tuple) :
    c.head.Due s c.body ∅ tuple := by
  rcases h with breaks | ⟨b, path, none⟩
  · exact .inr breaks
  · exact .inl ⟨b, path, fun values value => (none values value).elim⟩

/-! ## Debts -/

/-- **Every tuple is owed to the relation**: it is stored, or due in a task over the facts at the
start. -/
def World.Owes (cx : Context) (start : Facts) (r : Relation) (world : World) (tasks : List Task) :
    Prop :=
  ∀ tuple, world.store.Holds r tuple ∨
    ∃ t ∈ tasks, t.clause.head.relation = r ∧ t.Due cx start start tuple

namespace World.Owes

variable {r : Relation}

theorem congr (h : world.Owes cx start r tasks) {tasks' : List Task}
    (same : ∀ t, t ∈ tasks' ↔ t ∈ tasks) : world.Owes cx start r tasks' :=
  fun tuple => (h tuple).imp_right fun ⟨t, ht, due⟩ => ⟨t, (same t).2 ht, due⟩

/-- **A task that ends well pays** with facts, or leaves its debts to the tasks that it makes. -/
theorem run (diff : cx.stratum.Differential cx.functions [] start) (ends : cx.Ends start G)
    (owes : world.Owes cx start r (task :: others))
    (onWay : world.OnWay cx [] start G (task :: others))
    (ok : (task.run cx false world).result = .ok ()) :
    (task.run cx false world).world.Owes cx start r
      ((task.run cx false world).spawned ++ others) := by
  obtain ⟨w, hwork, hrun⟩ := Task.run_ok ok
  rw [hrun]
  have sound := onWay.sound task (List.mem_cons_self ..)
  have did := Work.work_did diff ends sound ends.within onWay.safe rfl onWay.store.above hwork
  intro tuple
  rcases owes tuple with stored | ⟨t, ht, rfl, due⟩
  · exact .inl (did.grows.store r tuple stored)
  · rcases List.mem_cons.1 ht with rfl | ht
    · rcases did.settled tuple due with stored | ⟨u, hu, hr, due⟩
      · exact .inl stored
      · exact .inr ⟨u, List.mem_append_left _ hu, hr, due⟩
    · exact .inr ⟨t, List.mem_append_right _ ht, rfl, due⟩

end World.Owes

/-- **Some base clause faults on the facts at the start.** -/
def Context.FaultsAtOnce (cx : Context) (start : Facts) : Prop :=
  ∃ c ∈ cx.stratum.clauses, c.Faults (.over cx.functions start start)

namespace Evaluation

variable {mode : Unification} {e e' : Evaluation} {schedule schedule' : Schedule}
  {budget budget' : Nat}

/-- **A fault at the start is met** in the base round. -/
theorem round_not_ok (diff : e.context.stratum.Differential e.context.functions [] start)
    (ends : e.context.Ends start G) (store : Store.Between start G e.world.store)
    (faults : e.context.FaultsAtOnce start) {u : Unit} :
    round schedule budget (baseTasks e.context) e ≠ some (e', .ok u) := by
  intro h
  obtain ⟨c, hc, faults⟩ := faults
  obtain ⟨p, hp, rfl⟩ := List.mem_map.1 hc
  obtain ⟨a, hdrain, hfault, rfl⟩ := round_ok h
  have owes : World.Owes e.context start p.head.relation (e.agenda (baseTasks e.context)).world
      (baseTasks e.context) :=
    fun tuple => .inr ⟨_, List.mem_map_of_mem hp, rfl, faults.due tuple⟩
  have same (t : Task) : t ∈ (baseTasks e.context).reverse ↔ t ∈ baseTasks e.context :=
    List.mem_reverse
  have onWay : World.OnWay e.context [] start G { e.world with delta := ∅ }
      (baseTasks e.context).reverse := (World.OnWay.base diff ends store).congr same
  obtain ⟨⟨onWay, owes⟩, hwaiting⟩ := Agenda.drain_induction
    (P := fun a => a.world.OnWay e.context [] start G a.waiting ∧
      a.world.Owes e.context start p.head.relation a.waiting)
    (fun a i task hi ok ⟨onWay, owes⟩ => by
      have perm := Agenda.perm_waiting hi
      have onWay := onWay.congr fun t => perm.mem_iff
      exact ⟨onWay.run diff ends ok, (owes.congr fun t => perm.mem_iff).run diff ends onWay ok⟩)
    hdrain hfault ⟨⟨onWay.store, onWay.sound, onWay.delayed, onWay.covered⟩, owes.congr same⟩
  -- all tuples would have to be stored, those of a wrong length too
  rcases owes (List.replicate (p.head.relation.arity + 1) (.int 0)) with stored | ⟨t, ht, _⟩
  · have long := ends.measured _ _ (onWay.store.below _ _ stored)
    rw [List.length_replicate] at long
    omega
  · rw [hwaiting] at ht
    cases ht

/-- **No evaluation gets past a base clause that faults on the facts at the start.** -/
theorem not_ok_of_faults (planned : cx.stratum.Planned mode rules) (fit : world.store.Fit)
    (faults : cx.FaultsAtOnce world.store.Holds) {summary : Summary} :
    run schedule budget { context := cx, world } ≠ some (e, .ok summary) := by
  intro h
  have diff : cx.stratum.Differential cx.functions rules world.store.Holds :=
    planned.differential fit.measured
  obtain ⟨_, absurd, _⟩ := run_induction (P := fun _ => False) h
    (fun e₁ u hround => round_not_ok (e := { context := cx, world, phase := .baseRound }) diff.none
      (Context.ends_closure diff fit.measured)
      ⟨fit.built, .refl _, Facts.start_within_closure⟩ faults hround)
    fun _ _ _ _ absurd => absurd.elim
  exact absurd

/-- **Whether an evaluation fails** is decided at the start, if no clause can fault unless some
base clause does so on the facts at the start. -/
theorem exists_error_iff (planned : cx.stratum.Planned mode rules) (fit : world.store.Fit)
    (decided : cx.Faults world.store.Holds
      (Facts.closure cx.functions cx.stratum.clauses world.store.Holds) →
        cx.FaultsAtOnce world.store.Holds) {result : Except Fault Summary}
    (h : run schedule budget { context := cx, world } = some (e, result)) :
    (∃ fault, result = .error fault) ↔ cx.FaultsAtOnce world.store.Holds := by
  constructor
  · rintro ⟨fault, rfl⟩
    have diff : cx.stratum.Differential cx.functions rules world.store.Holds :=
      planned.differential fit.measured
    obtain ⟨_, _, faults⟩ := halts (e := { context := cx, world }) diff.none
      (Context.ends_closure diff fit.measured)
      ⟨fit.built, .refl _, Facts.start_within_closure⟩ fit.shaped h
    exact decided (faults fault rfl)
  · intro faults
    cases result with
    | ok summary => exact (not_ok_of_faults planned fit faults h).elim
    | error fault => exact ⟨fault, rfl⟩

/-- **What schedules and settings cannot change.**  Take two evaluations of a planned stratum over
the same store and with the same functions.  If both end well, they leave the same facts.  And
both end well, or neither does, unless some clause can fault though on the facts at the start no
base clause does. -/
theorem agree_of_run (planned : cx.stratum.Planned mode rules) (fit : world.store.Fit)
    (stratum : cx'.stratum = cx.stratum) (functions : cx'.functions = cx.functions)
    (store : world'.store = world.store) {result result' : Except Fault Summary}
    (h : run schedule budget { context := cx, world } = some (e, result))
    (h' : run schedule' budget' { context := cx', world := world' } = some (e', result')) :
    (∀ summary summary', result = .ok summary → result' = .ok summary' →
      ∀ r t, e.world.store.Holds r t ↔ e'.world.store.Holds r t) ∧
    ((cx.Faults world.store.Holds
        (Facts.closure cx.functions cx.stratum.clauses world.store.Holds) →
          cx.FaultsAtOnce world.store.Holds) →
      (∃ summary summary', result = .ok summary ∧ result' = .ok summary') ∨
      ∃ fault fault', result = .error fault ∧ result' = .error fault') := by
  have planned' : cx'.stratum.Planned mode rules := stratum ▸ planned
  have fit' : world'.store.Fit := store ▸ fit
  constructor
  · rintro summary summary' rfl rfl r t
    rw [(complete_of_run planned fit.built fit.measured h).holds,
      (complete_of_run planned' fit'.built fit'.measured h').holds, store, functions, stratum]
  · intro decided
    have same : cx'.FaultsAtOnce world'.store.Holds ↔ cx.FaultsAtOnce world.store.Holds := by
      rw [Context.FaultsAtOnce, Context.FaultsAtOnce, store, functions, stratum]
    have decided' : cx'.Faults world'.store.Holds
        (Facts.closure cx'.functions cx'.stratum.clauses world'.store.Holds) →
          cx'.FaultsAtOnce world'.store.Holds := by
      rw [same, Context.Faults, store, functions, stratum]
      exact decided
    have first := exists_error_iff planned fit decided h
    have second := (exists_error_iff planned' fit' decided' h').trans same
    cases result with
    | ok summary =>
      cases result' with
      | ok summary' => exact .inl ⟨summary, summary', rfl, rfl⟩
      | error fault =>
        obtain ⟨_, absurd⟩ := first.2 (second.1 ⟨fault, rfl⟩)
        cases absurd
    | error fault =>
      obtain ⟨fault', rfl⟩ := second.2 (first.1 ⟨fault, rfl⟩)
      exact .inr ⟨fault, fault', rfl, rfl⟩

end Evaluation

end

/-! ## Examples -/

namespace Guarded

/-- The terms with their divisors, as they are supplied. -/
def e : Relation := ⟨"e", 2, .extensional⟩

/-- What `r` is derived from. -/
def f : Relation := ⟨"f", 1, .extensional⟩

/-- The terms with their divisors. -/
def p : Relation := ⟨"p", 2, .bottomUp⟩

/-- What the third rule asks for last. -/
def r : Relation := ⟨"r", 1, .bottomUp⟩

/-- The divisors that the third rule derives. -/
def h : Relation := ⟨"h", 1, .bottomUp⟩

/-- `p(t, x) :- e(t, x).`, `r(z) :- f(z).` and `h(x) :- p(t, x), t = c(z, div(1, x)), r(z).` -/
def rules : List Rule :=
  let t : Term := .var ⟨"t", 0⟩
  let x : Term := .var ⟨"x", 0⟩
  let z : Term := .var ⟨"z", 0⟩
  [{ head := { relation := p, args := [t, x] }
     body := [.atom { relation := e, args := [t, x] }] },
    { head := { relation := r, args := [z] }
      body := [.atom { relation := f, args := [z] }] },
    { head := { relation := h, args := [x] }
      body := [.atom { relation := p, args := [t, x] },
        .unify t (.ctor "c" [z, .call "div" [.int 1, x]]) false,
        .atom { relation := r, args := [z] }] }]

/-- `e(5, x)` and `f(7)`. -/
def store (x : Int64) : Store := ((Store.add ∅ e [.int 5, .int x]).1.add f [.int 7]).1

/-- The stratum over the store, with nothing tracked. -/
def evaluation (settings : Settings) (s : Stratum) (store : Store) : Evaluation where
  context := { functions := .builtin, settings, stratum := s, tracked := [] }
  world := { store }

/-- The task that has waited longest runs next. -/
def oldest : Schedule := fun a => a.waiting.length - 1

/-- **Schedules and settings can change whether an evaluation ends well.**  The base clause takes
the tuple for a constructor before it divides by zero, and the recursive clause for `r` divides
first.  It comes to that if `p` has its tuple when `r` gets one: not if the newest task runs
first, but if the oldest does, or if both tuples wait for the next round. -/
theorem exists_disagreement : ∃ s st,
    Stratum.plan .assign .builtin rules ⟨store 0, 1⟩ = .ok s st ∧
      (∃ e summary, Evaluation.run Policy.newest 20 (evaluation {} s st.store) =
        some (e, .ok summary)) ∧
      (∃ e fault, Evaluation.run oldest 20 (evaluation {} s st.store) = some (e, .error fault)) ∧
      ∃ e fault, Evaluation.run Policy.newest 20 (evaluation { maxGeneration := 0 } s st.store) =
        some (e, .error fault) := by
  have ok : Plan.passes (Stratum.plan .assign .builtin rules) ⟨store 0, 1⟩ (fun s st =>
      (Evaluation.run Policy.newest 20 (evaluation {} s st.store)).any (fun r => r.2.toBool) &&
        ((Evaluation.run oldest 20 (evaluation {} s st.store)).any (fun r => !r.2.toBool) &&
          (Evaluation.run Policy.newest 20 (evaluation { maxGeneration := 0 } s st.store)).any
            fun r => !r.2.toBool)) = true := by cbv
  obtain ⟨s, st, plan, ok⟩ := Plan.exists_of_passes ok
  rw [Bool.and_eq_true, Bool.and_eq_true] at ok
  exact ⟨s, st, plan, Evaluation.exists_ok ok.1, Evaluation.exists_error ok.2.1,
    Evaluation.exists_error ok.2.2⟩

/-- With another divisor both end well, and leave the same facts. -/
theorem exists_agreement : ∃ s st e summary e' summary',
    Stratum.plan .assign .builtin rules ⟨store 1, 1⟩ = .ok s st ∧
      Evaluation.run Policy.newest 20 (evaluation {} s st.store) = some (e, .ok summary) ∧
      Evaluation.run oldest 20 (evaluation { maxGeneration := 0 } s st.store) =
        some (e', .ok summary') ∧
      ∀ r t, e.world.store.Holds r t ↔ e'.world.store.Holds r t := by
  have ok : Plan.passes (Stratum.plan .assign .builtin rules) ⟨store 1, 1⟩ (fun s st =>
      (Evaluation.run Policy.newest 20 (evaluation {} s st.store)).any (fun r => r.2.toBool) &&
        (Evaluation.run oldest 20 (evaluation { maxGeneration := 0 } s st.store)).any
          fun r => r.2.toBool) = true := by cbv
  obtain ⟨s, st, plan, ok⟩ := Plan.exists_of_passes ok
  rw [Bool.and_eq_true] at ok
  obtain ⟨e, summary, ran⟩ := Evaluation.exists_ok ok.1
  obtain ⟨e', summary', ran'⟩ := Evaluation.exists_ok ok.2
  have below : ∀ rule ∈ rules, ∀ v ∈ rule.occurrences, v.number < 1 := by decide
  have fit : st.store.Fit := by
    have filled : (store 1).Fit := (Store.fit_empty.add rfl).add rfl
    exact (Stratum.prepares_of_plan below plan).fit filled
  have planned : (evaluation {} s st.store).context.stratum.Planned .assign rules :=
    .of_positive below plan (by simp [rules])
  refine ⟨s, st, e, summary, e', summary', plan, ran, ran',
    (Evaluation.agree_of_run planned fit ?_ ?_ ?_ ran ran').1 _ _ rfl rfl⟩ <;> rfl

end Guarded

end Datalog
