import Datalog.Proofs.Evaluation.Confluence
import Datalog.Proofs.Evaluation.Growth
import Datalog.Proofs.Evaluation.Visits
import Datalog.Proofs.Reached

/-!
# Proofs/Rerun — running what has been run

Over facts that are closed under its clauses, an evaluation of a stratum finds nothing new: it runs
its base clauses and whatever goes on from them (`Context.Repeats`), nothing comes to the delta, and
so there is no second round.  It ends for certain, and it ends well unless a base clause faults
(`Evaluation.run_of_closed`).  A run that ends well leaves facts that are closed under every
stratum, so the next run is of this kind (`Database.Reached.repeats`).  The first run may have
passed over a fault that the next one meets (`Hasty.exists_fault_again`).
-/

namespace Datalog

/-! ## Agendas that repeat -/

/-- **The agenda repeats what has been found**: the world rests, and what waits are base clauses; a
fault is one of theirs. -/
structure Context.Repeats (cx : Context) (before : World) (a : Agenda Task World) : Prop where
  onWay : a.world.OnWay cx [] before.store.Holds before.store.Holds a.waiting
  rests : before.Rests a.world
  rounds : a.world.counters.rounds = before.counters.rounds
  base : ∀ t ∈ a.waiting, t.clause ∈ cx.stratum.base ∧ t.seed = none
  faults : a.fault ≠ none → cx.FaultsAtOnce before.store.Holds

/-- Closed facts are where an evaluation over them ends. -/
theorem Context.ends_of_closed {cx : Context} {start : Facts}
    (closed : start.Closed cx.functions cx.stratum.clauses start) (measured : start.Measured) :
    cx.Ends start start where
  within := .refl _
  closed := closed
  measured := measured
  fixed _ _ _ h := h

section

variable {cx : Context} {mode : Unification} {rules : List Rule} {world : World}

/-- **One more task** of an agenda that repeats.  All tasks that it makes have less to do. -/
theorem Context.Repeats.runAt {before : World} {a : Agenda Task World} {i : Nat} {task : Task}
    (h : cx.Repeats before a)
    (diff : cx.stratum.Differential cx.functions [] before.store.Holds)
    (ends : cx.Ends before.store.Holds before.store.Holds) (shaped : before.store.Shaped)
    (hi : a.waiting[i]? = some task) : cx.Repeats before (a.runAt (Task.run cx) i) ∧
      ∀ t ∈ (task.run cx a.fault.isSome a.world).spawned,
        t.remaining.length < task.remaining.length := by
  have perm := Agenda.perm_waiting hi
  obtain ⟨base, seed⟩ := h.base task (perm.mem_iff.1 (List.mem_cons_self ..))
  have shaped : a.world.store.Shaped := h.rests.store ▸ shaped
  obtain ⟨onWay, _, faults⟩ :=
    (h.onWay.congr fun t => perm.mem_iff).ran diff ends a.fault.isSome shaped
  obtain ⟨grows, quiet⟩ := Task.run_grows cx a.fault.isSome task a.world
  -- whatever is stored belongs to the closed facts, so nothing can have been added
  obtain ⟨rests, spawned⟩ := quiet (h.rests.store ▸ onWay.store.below)
  refine ⟨?_, fun t ht => (spawned t ht).remaining⟩
  have told (hfault : (a.runAt (Task.run cx) i).fault ≠ none) :
      cx.FaultsAtOnce before.store.Holds := by
    refine (Agenda.exists_error_of_fault_runAt hi hfault).elim h.faults fun ⟨f, hf⟩ => ?_
    have faults := faults f hf
    rw [Task.scene, seed] at faults
    exact ⟨task.clause.clause, List.mem_map_of_mem base, faults⟩
  rw [Agenda.runAt, hi] at told ⊢
  refine ⟨onWay, h.rests.trans rests, grows.rounds.trans h.rounds, List.forall_mem_append.2 ⟨?_, ?_⟩, told⟩
  · intro t ht
    rw [(spawned t ht).clause, (spawned t ht).seed]
    exact ⟨base, seed⟩
  · exact fun t ht => h.base t (List.mem_of_mem_eraseIdx ht)

namespace Evaluation

variable {schedule : Schedule} {budget : Nat} {e e' : Evaluation}

/-! ## Evaluations over closed facts -/

theorem seededTasks_empty : seededTasks cx ∅ = [] :=
  List.flatMap_eq_nil_iff.2 fun (r, clauses) _ => by
    dsimp only
    rw [Assoc.get?_emptyCollection, Option.getD_none, Listing.waited_nil]

/-- What an evaluation comes to if this is the agenda of its only round. -/
def only (e : Evaluation) (a : Agenda Task World) : Evaluation × Except Fault Summary :=
  ({ e with
    world := a.world
    phase := if a.fault.isSome then .failed else .done
    history := a.finished :: e.history },
  a.result.map fun _ => a.world.counters.since e.world.counters)

/-- **An evaluation without a second round** is its base round. -/
theorem run_of_quiet
    (quiet : ∀ a, Agenda.drain (Task.run e.context) schedule budget
      (e.agenda (baseTasks e.context)) = some a → a.world.delta = ∅) :
    run schedule budget e = (Agenda.drain (Task.run e.context) schedule budget
      (e.agenda (baseTasks e.context))).map e.only := by
  cases hdrain : Agenda.drain (Task.run e.context) schedule budget
    (e.agenda (baseTasks e.context)) with
  | none =>
    have first : round schedule budget (baseTasks e.context) { e with phase := .baseRound } =
        none :=
      round_eq_map.trans (congrArg (Option.map _) hdrain)
    rw [run, first]
    rfl
  | some a =>
    have first : round schedule budget (baseTasks e.context) { e with phase := .baseRound } = some
        ({ e with world := a.world, phase := .baseRound, history := a.finished :: e.history },
          a.result) :=
      round_eq_map.trans (congrArg (Option.map _) hdrain)
    rw [run, first]
    cases hfault : a.fault with
    | some f => simp [only, Agenda.result_error_iff.2 hfault, Except.map, hfault]
    | none =>
      have fine : a.result = .ok () := by rw [Agenda.result, hfault]
      have last : rounds schedule budget budget 1
          { e with world := a.world, phase := .baseRound, history := a.finished :: e.history } =
            some ({ e with world := a.world, phase := .done, history := a.finished :: e.history },
              .ok ()) := rounds_of_nil (quiet a hdrain ▸ seededTasks_empty)
      simp [only, fine, last, Except.map, hfault]

variable (planned : cx.stratum.Planned mode rules) (fit : world.store.Fit)
  (closed : world.store.Holds.Closed cx.functions cx.stratum.clauses world.store.Holds)
include planned fit closed

/-- **The base tasks over closed facts** repeat what has been found. -/
theorem repeats_base : cx.Repeats (agenda { context := cx, world } (baseTasks cx)).world
    (agenda { context := cx, world } (baseTasks cx)) where
  onWay := by
    have diff : cx.stratum.Differential cx.functions rules world.store.Holds :=
      planned.differential fit.measured
    have onWay : World.OnWay cx [] world.store.Holds world.store.Holds { world with delta := ∅ }
        (baseTasks cx) :=
      .base diff.none (Context.ends_of_closed closed fit.measured) ⟨fit.built, .refl _, .refl _⟩
    have onWay := onWay.congr fun t => List.mem_reverse
    exact ⟨onWay.store, onWay.sound, onWay.delayed, onWay.covered⟩
  rests := .refl _
  rounds := rfl
  base t ht := by
    obtain ⟨c, hc, rfl⟩ := List.mem_map.1 (List.mem_reverse.1 ht)
    exact ⟨hc, rfl⟩
  faults := nofun

/-- **A task on the way** repeats too. -/
theorem repeats_runAt {a : Agenda Task World} {i : Nat} {task : Task}
    (hi : a.waiting[i]? = some task)
    (h : cx.Repeats (agenda { context := cx, world } (baseTasks cx)).world a) :
    cx.Repeats (agenda { context := cx, world } (baseTasks cx)).world (a.runAt (Task.run cx) i) ∧
      ∀ t ∈ (task.run cx a.fault.isSome a.world).spawned,
        t.remaining.length < task.remaining.length := by
  have diff : cx.stratum.Differential cx.functions rules world.store.Holds :=
    planned.differential fit.measured
  exact h.runAt diff.none (Context.ends_of_closed closed fit.measured) fit.shaped hi

theorem repeats_of_drain {a : Agenda Task World}
    (h : Agenda.drain (Task.run cx) schedule budget
      (agenda { context := cx, world } (baseTasks cx)) = some a) :
    cx.Repeats (agenda { context := cx, world } (baseTasks cx)).world a :=
  (Agenda.drain_invariant (P := cx.Repeats _)
    (fun _ _ _ hi repeats => (repeats_runAt planned fit closed hi repeats).1) h
    (repeats_base planned fit closed)).1

/-- **An evaluation over closed facts ends**, on any schedule. -/
theorem exists_run_of_closed (schedule : Schedule) :
    ∃ enough r, ∀ budget ≥ enough, run schedule budget { context := cx, world } = some r := by
  obtain ⟨enough, a, h⟩ : ∃ enough a, ∀ budget ≥ enough, Agenda.drain (Task.run cx) schedule budget
      (agenda { context := cx, world } (baseTasks cx)) = some a :=
    Agenda.exists_drain (fun t => t.remaining.length) (fun _ => 0)
      (fun _ _ _ hi h => (repeats_runAt planned fit closed hi h).imp_right fun h => .inr ⟨rfl, h⟩)
      (repeats_base planned fit closed)
  refine ⟨enough, only { context := cx, world } a, fun budget hbudget => ?_⟩
  rw [run_of_quiet fun a ha => (repeats_of_drain planned fit closed ha).rests.delta]
  exact congrArg (Option.map _) (h budget hbudget)

/-- **An evaluation over closed facts** leaves the store as it is, after a single round, and it
fails if and only if some base clause faults. -/
theorem run_of_closed {result : Except Fault Summary}
    (h : run schedule budget { context := cx, world } = some (e, result)) :
    e.world.store = world.store ∧ e.world.counters.newFacts = world.counters.newFacts ∧
      e.world.counters.rounds = world.counters.rounds + 1 ∧
      ((∃ f, result = .error f) ↔ cx.FaultsAtOnce world.store.Holds) := by
  have ran := h
  rw [run_of_quiet fun a ha => (repeats_of_drain planned fit closed ha).rests.delta] at h
  obtain ⟨a, hdrain, h⟩ := Option.map_eq_some_iff.1 h
  obtain ⟨rfl, rfl⟩ := Prod.mk.inj h
  have repeats := repeats_of_drain planned fit closed hdrain
  refine ⟨repeats.rests.store, repeats.rests.newFacts, repeats.rounds, ?_, fun faults => ?_⟩
  · rintro ⟨f, hf⟩
    refine repeats.faults fun none => ?_
    rw [Agenda.result, none] at hf
    cases hf
  · cases hresult : a.result with
    | error f => exact ⟨f, rfl⟩
    | ok u =>
      rw [hresult] at ran
      exact (not_ok_of_faults planned fit faults ran).elim

end Evaluation

end

namespace Database

variable {db db' again : Database} {schedule : Schedule} {budget number : Nat}
  {program : List (Unification × List Rule)}

/-! ## Strata that are closed already -/

section

variable {strata : List Stratum} (planned : ∀ s ∈ strata, ∃ mode rules, s.Planned mode rules)
  (fit : db.store.Fit)
  (closed : ∀ s ∈ strata, db.store.Holds.Closed db.functions s.clauses db.store.Holds)
include planned fit closed

/-- **Running strata over closed facts ends**, on any schedule. -/
theorem exists_runStrata_of_closed (schedule : Schedule) :
    ∃ enough r, ∀ budget ≥ enough, runStrata schedule budget number strata db = some r := by
  induction strata generalizing db number with
  | nil => exact ⟨0, (db, .ok ()), fun _ _ => rfl⟩
  | cons s rest ih =>
    rw [List.forall_mem_cons] at planned closed
    obtain ⟨⟨mode, rules, first⟩, planned⟩ := planned
    obtain ⟨enough, ⟨e, result⟩, ran⟩ : ∃ enough r, ∀ budget ≥ enough,
        (db.evaluation s).run schedule budget = some r :=
      Evaluation.exists_run_of_closed first fit closed.1 schedule
    obtain ⟨store, _⟩ := Evaluation.run_of_closed first fit closed.1 (ran enough (Nat.le_refl _))
    have store : (db.absorb e.world).store = db.store := store
    cases result with
    | error fault =>
      refine ⟨enough, (db.absorb e.world, .error ⟨number, fault⟩), fun budget hbudget => ?_⟩
      rw [runStrata]
      exact congrArg (Option.bind · _) (ran budget hbudget)
    | ok summary =>
      obtain ⟨enough', r, ran'⟩ : ∃ enough r, ∀ budget ≥ enough,
          runStrata schedule budget (number + 1) rest (db.absorb e.world) = some r := by
        refine ih planned (store.symm ▸ fit) ?_
        rw [store]
        exact closed.2
      refine ⟨max enough enough', r, fun budget hbudget => ?_⟩
      rw [runStrata]
      refine (congrArg (Option.bind · _) (ran budget (by omega))).trans ?_
      exact ran' budget (by omega)

/-- **Running strata over closed facts** leaves the store as it is, after one round for each, and
it fails if and only if some base clause faults. -/
theorem runStrata_of_closed {result : Except RunError Unit}
    (h : runStrata schedule budget number strata db = some (db', result)) :
    db'.store = db.store ∧ db'.counters.newFacts = db.counters.newFacts ∧
      (∀ u, result = .ok u → db'.counters.rounds = db.counters.rounds + strata.length) ∧
      ((∃ e, result = .error e) ↔ ∃ s ∈ strata, ∃ c ∈ s.clauses,
        c.Faults (.over db.functions db.store.Holds db.store.Holds)) := by
  induction strata generalizing db number with
  | nil =>
    cases h
    exact ⟨rfl, rfl, fun _ _ => rfl, by simp⟩
  | cons s rest ih =>
    rw [List.forall_mem_cons] at planned closed
    obtain ⟨⟨mode, rules, first⟩, planned⟩ := planned
    rw [runStrata] at h
    obtain ⟨⟨e, result'⟩, ran, h⟩ := Option.bind_eq_some_iff.1 h
    obtain ⟨store, newFacts, rounds, fails⟩ := Evaluation.run_of_closed first fit closed.1 ran
    have store : (db.absorb e.world).store = db.store := store
    cases result' with
    | error fault =>
      cases h
      obtain ⟨c, hc, faults⟩ := fails.1 ⟨fault, rfl⟩
      refine ⟨store, newFacts, ?_, fun _ => ⟨s, List.mem_cons_self .., c, hc, faults⟩,
        fun _ => ⟨_, rfl⟩⟩
      rintro _ ⟨⟩
    | ok summary =>
      have fit' : (db.absorb e.world).store.Fit := store.symm ▸ fit
      have closed' : ∀ s ∈ rest, (db.absorb e.world).store.Holds.Closed db.functions s.clauses
          (db.absorb e.world).store.Holds := by
        rw [store]
        exact closed.2
      obtain ⟨store', newFacts', rounds', fails'⟩ := ih planned fit' closed' h
      refine ⟨store'.trans store, newFacts'.trans newFacts, fun u hu => ?_, ?_⟩
      · rw [rounds' u hu, List.length_cons, Nat.add_comm rest.length, ← Nat.add_assoc]
        exact congrArg (· + rest.length) rounds
      · rw [fails', store, List.exists_mem_cons_iff, or_iff_right]
        · rfl
        · intro faults
          obtain ⟨_, absurd⟩ := fails.2 faults
          cases absurd

end

section

variable (planned : ∀ s ∈ db.strata, ∃ mode rules, s.Planned mode rules) (fit : db.store.Fit)
  (closed : ∀ s ∈ db.strata, db.store.Holds.Closed db.functions s.clauses db.store.Holds)
include planned fit closed

theorem exists_run_of_closed (schedule : Schedule) :
    ∃ enough r, ∀ budget ≥ enough, db.run schedule budget = some r := by
  obtain ⟨enough, ⟨db', e | u⟩, h⟩ := exists_runStrata_of_closed planned fit closed schedule
  · exact ⟨enough, (db', .error e), fun budget hbudget =>
      congrArg (Option.bind · _) (h budget hbudget)⟩
  · exact ⟨enough, (db', .ok (db'.counters.since db.counters)), fun budget hbudget =>
      congrArg (Option.bind · _) (h budget hbudget)⟩

/-- **A run over closed facts** finds nothing new, in one round for each stratum. -/
theorem run_of_closed {result : Except RunError Summary}
    (h : db.run schedule budget = some (db', result)) :
    db'.store = db.store ∧
      (∀ summary, result = .ok summary →
        summary.newFacts = 0 ∧ summary.rounds = db.strata.length) ∧
      ((∃ e, result = .error e) ↔ ∃ s ∈ db.strata, ∃ c ∈ s.clauses,
        c.Faults (.over db.functions db.store.Holds db.store.Holds)) := by
  rw [run] at h
  obtain ⟨⟨db₁, result₁⟩, ran, h⟩ := Option.bind_eq_some_iff.1 h
  obtain ⟨store, newFacts, rounds, fails⟩ := runStrata_of_closed planned fit closed ran
  cases result₁ with
  | error e =>
    cases h
    refine ⟨store, ?_, fun _ => fails.1 ⟨e, rfl⟩, fun _ => ⟨e, rfl⟩⟩
    rintro _ ⟨⟩
  | ok u =>
    cases h
    refine ⟨store, fun summary hs => ?_, ?_, fun faults => ?_⟩
    · obtain rfl := Except.ok.inj hs
      exact ⟨(congrArg (· - _) newFacts).trans (Nat.sub_self _),
        (congrArg (· - _) (rounds u rfl)).trans (Nat.add_sub_cancel_left ..)⟩
    · rintro ⟨_, ⟨⟩⟩
    · obtain ⟨_, absurd⟩ := fails.2 faults
      cases absurd

end

/-! ## Running again -/

/-- **After a run that ends well**, the facts are closed under every stratum. -/
theorem closed_of_run (fit : db.store.Fit) (order : Rule.Stratified (program.map Prod.snd))
    (planned : List.Forall₂ (fun p s => Stratum.Planned p.1 p.2 s) program db.strata)
    {summary : Summary} (ran : db.run schedule budget = some (db', .ok summary)) :
    ∀ s ∈ db.strata, db'.store.Holds.Closed db.functions s.clauses db'.store.Holds := by
  intro s hs
  rw [(holds_of_run fit.built fit.measured planned ran).1]
  exact Facts.closed_stages (stratified_of_planned planned order) _ (List.mem_map_of_mem hs)

/-- **A run repeats what the run before it has found.**  Take any database that can be reached, with
a program in order, and a run of it that ends well.  However it is tuned then, and on whatever
schedule, a second run ends: with budget enough there is a result.  It leaves the store as it is,
and if it ends well it has found no new facts, in one round for each stratum.  It fails if and only
if some base clause of a stratum faults on the facts that the first run has left. -/
theorem Reached.repeats (reached : Reached (fun _ => True) db program)
    (order : Rule.Stratified (program.map Prod.snd)) {summary : Summary}
    (ran : db.run schedule budget = some (db', .ok summary)) (same : db'.Retuned again)
    (schedule' : Schedule) :
    (∃ enough r, ∀ budget' ≥ enough, again.run schedule' budget' = some r) ∧
      ∀ budget' db'' result, again.run schedule' budget' = some (db'', result) →
        db''.store = db'.store ∧
        (∀ summary', result = .ok summary' →
          summary'.newFacts = 0 ∧ summary'.rounds = db.strata.length) ∧
        ((∃ e, result = .error e) ↔ ∃ s ∈ db.strata, ∃ c ∈ s.clauses,
          c.Faults (.over db.functions db'.store.Holds db'.store.Holds)) := by
  have sound := reached.sound Term.inherited_true
  have planned := planned_of_static sound.plans order.static
  have closed := closed_of_run sound.fit order planned ran
  have fit := ((reached.run ran).sound Term.inherited_true).fit
  have program := SameProgram.of_run ran
  have strata : again.strata = db.strata := same.strata.trans program.strata
  have functions : again.functions = db.functions := same.functions.trans program.functions
  rw [← strata, ← functions, ← same.store] at closed
  rw [← same.store] at fit
  rw [← strata] at planned
  have planned (s : Stratum) (hs : s ∈ again.strata) : ∃ mode rules, s.Planned mode rules := by
    obtain ⟨p, _, planned⟩ := Outcome.exists_of_forall₂ planned.flip hs
    exact ⟨p.1, p.2, planned⟩
  rw [← strata, ← functions, ← same.store]
  exact ⟨exists_run_of_closed planned fit closed schedule',
    fun _ _ _ => run_of_closed planned fit closed⟩

end Database

/-! ## Examples -/

namespace Absent

/-- **The second run ends well**, tuned otherwise, and has found nothing. -/
theorem exists_repeated : ∃ db' summary again summary',
    (database .assign).run Policy.newest 20 = some (db', .ok summary) ∧
      (db'.withSettings { taskSize := 1, maxGeneration := 0 }).run Guarded.oldest 20 =
        some (again, .ok summary') ∧
      again.store = db'.store ∧ summary'.newFacts = 0 ∧ summary'.rounds = 2 := by
  have ok : ((database .assign).run Policy.newest 20).any (fun r => r.2.toBool &&
      ((r.1.withSettings { taskSize := 1, maxGeneration := 0 }).run Guarded.oldest 20).any
        fun r => r.2.toBool) = true := by cbv
  obtain ⟨⟨db', _ | summary⟩, ran, ok⟩ := (Option.any_eq_true ..).1 ok
  · cases ok
  obtain ⟨⟨again, _ | summary'⟩, ran', ok⟩ := (Option.any_eq_true ..).1 ok
  · cases ok
  have same : db'.Retuned (db'.withSettings { taskSize := 1, maxGeneration := 0 }) :=
    ⟨⟨rfl, rfl, rfl⟩, rfl⟩
  obtain ⟨_, repeats⟩ :=
    Database.Reached.repeats (reached (fun _ => trivial) .assign) order ran same Guarded.oldest
  obtain ⟨store, fine, _⟩ := repeats 20 again (.ok summary') ran'
  obtain ⟨newFacts, rounds⟩ := fine summary' rfl
  exact ⟨db', summary, again, summary', ran, ran', store, newFacts, rounds⟩

end Absent

namespace Hasty

/-- The terms with their numbers, as they are supplied. -/
def e : Relation := ⟨"e", 2, .extensional⟩

/-- The numbers that `h` starts from. -/
def q : Relation := ⟨"q", 1, .extensional⟩

/-- The first copy of `e`. -/
def p₁ : Relation := ⟨"p1", 2, .bottomUp⟩

/-- The copy of the first. -/
def p₂ : Relation := ⟨"p2", 2, .bottomUp⟩

/-- The copy of the second, which `h` reads. -/
def p₃ : Relation := ⟨"p3", 2, .bottomUp⟩

/-- What a term of `p₃` starts with. -/
def h : Relation := ⟨"h", 1, .bottomUp⟩

/-- `p3(a, b) :- p2(a, b).`, `h(w) :- q(v), p3(c(w, g(v, div(1, y))), y).`,
`p2(a, b) :- p1(a, b).` and `p1(a, b) :- e(a, b).` -/
def rules : List Rule :=
  let a : Term := .var ⟨"a", 0⟩
  let b : Term := .var ⟨"b", 0⟩
  let v : Term := .var ⟨"v", 0⟩
  let w : Term := .var ⟨"w", 0⟩
  let y : Term := .var ⟨"y", 0⟩
  [{ head := { relation := p₃, args := [a, b] }
     body := [.atom { relation := p₂, args := [a, b] }] },
    { head := { relation := h, args := [w] }
      body := [.atom { relation := q, args := [v] },
        .atom { relation := p₃, args :=
          [.ctor "c" [w, .ctor "g" [v, .call "div" [.int 1, y]]], y] }] },
    { head := { relation := p₂, args := [a, b] }
      body := [.atom { relation := p₁, args := [a, b] }] },
    { head := { relation := p₁, args := [a, b] }
      body := [.atom { relation := e, args := [a, b] }] }]

/-- `e(c(1, 5), 0)` and `q(1)`, with at most one generation to a round. -/
def database : Database :=
  let db := (Database.addStratum { settings := { maxGeneration := 0 } } rules).1
  { db with store := db.store.addAll [(e, [.ctor "c" [.int 1, .int 5], .int 0]), (q, [.int 1])] }

/-- **A second run can fail where the first has not.**  When the base clause of `h` is run for the
first time, `p3` has no tuples.  They come with the last round, and the recursive clause finds that
5 is no `g` before it divides by zero.  In the second run the base clause has `v` bound, so that it
evaluates `g(v, div(1, y))` as a whole. -/
theorem exists_fault_again : Rule.Stratified [rules] ∧
    Database.Reached (fun _ => True) database [(.assign, rules)] ∧
    ∃ db' summary db'' error, database.run Policy.newest 20 = some (db', .ok summary) ∧
      db'.run Policy.newest 20 = some (db'', .error error) := by
  have bare : Database.Reached (fun _ => True) { settings := { maxGeneration := 0 } } [] :=
    Database.Reached.new.withSettings Term.inherited_true { maxGeneration := 0 }
  have ok : (database.run Policy.newest 20).any (fun r => r.2.toBool &&
      (r.1.run Policy.newest 20).any fun r => !r.2.toBool) = true := by cbv
  obtain ⟨⟨db', _ | summary⟩, ran, ok⟩ := (Option.any_eq_true ..).1 ok
  · cases ok
  obtain ⟨⟨db'', error | _⟩, ran', ok⟩ := (Option.any_eq_true ..).1 ok
  · have filled : Database.Reached (fun _ => True) database [(.assign, rules)] :=
      (bare.addStratum (by decide) (by cbv)).addAll fun f hf => ⟨?_, fun _ _ => trivial⟩
    · exact ⟨⟨by simp [rules], by simp⟩, filled, db', summary, db'', error, ran, ran'⟩
    · simp only [List.mem_cons, List.not_mem_nil, or_false] at hf
      rcases hf with rfl | rfl <;> rfl
  · cases ok

end Hasty

end Datalog
