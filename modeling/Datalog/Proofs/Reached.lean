import Datalog.Proofs.Database
import Datalog.Proofs.Evaluation.Values

/-!
# Proofs/Reached — the databases that can be reached

Databases come from the empty one by adding facts and rules, by replacing settings and functions,
and by evaluating strata, whether or not that ends well (`Database.Reached`).  All of this keeps the
store fit and its facts of such terms as the functions respect (`Database.Reached.sound`), so every
stored tuple has the right arity and consists of values, and no task fails for want of a position
(`Database.Reached.wellFormed`).
-/

namespace Datalog

/-! ## The functions every program has -/

/-- The function returns nothing but literals. -/
def Function.ReturnsLiterals (fn : Function) : Prop := ∀ xs y, fn.run xs = .ok y → ∃ v, y = .lit v

namespace Builtin

variable {name : String}

theorem literal_of_exactly {n : Int} {x : Term} (h : exactly name n = .ok x) : ∃ v, x = .lit v := by
  rw [exactly] at h
  split at h
  · exact ⟨_, (Except.ok.inj h).symm⟩
  · cases h

/-- A function of two integers returns what it makes of two integers. -/
theorem returnsLiterals_onIntegers {f : Int → Int → Except Abort Term}
    (hf : ∀ a b x, f a b = .ok x → ∃ v, x = .lit v) : (onIntegers name f).ReturnsLiterals := by
  intro xs y h
  rw [onIntegers, Function.binary] at h
  dsimp only at h
  split at h
  · obtain ⟨a, _, h⟩ := Outcome.except_bind_ok_iff.1 h
    obtain ⟨b, _, h⟩ := Outcome.except_bind_ok_iff.1 h
    exact hf _ _ y h
  · cases h

theorem returnsLiterals_arithmetic {op : Int → Int → Int} :
    (arithmetic name op).ReturnsLiterals :=
  returnsLiterals_onIntegers fun _ _ _ => literal_of_exactly

theorem returnsLiterals_division {result : Int → Int → Int} :
    (division name result).ReturnsLiterals := by
  refine returnsLiterals_onIntegers fun a b x h => ?_
  split at h
  · cases h
  · split at h
    · cases h
    · exact literal_of_exactly h

theorem returnsLiterals_comparison {test : Int → Int → Bool} :
    (comparison name test).ReturnsLiterals :=
  returnsLiterals_onIntegers fun _ _ _ h => ⟨_, (Except.ok.inj h).symm⟩

theorem returnsLiterals_negation : (negation name).ReturnsLiterals := by
  intro xs y h
  rw [negation, Function.unary] at h
  dsimp only at h
  split at h
  · obtain ⟨a, _, h⟩ := Outcome.except_bind_ok_iff.1 h
    exact literal_of_exactly h
  · cases h

theorem returnsLiterals_concatenation : (concatenation name).ReturnsLiterals := by
  intro xs y h
  rw [concatenation, Function.binary] at h
  dsimp only at h
  split at h
  · split at h
    · exact ⟨_, (Except.ok.inj h).symm⟩
    · cases h
  · cases h

end Builtin

/-- **The functions every program has** respect whatever holds of literals. -/
theorem Functions.respect_builtin {V : Term → Prop} (lit : ∀ v, V (.lit v)) :
    Functions.builtin.Respect V := by
  intro name fn hfn xs y _ ok
  have literals : fn.ReturnsLiterals := by
    have listed := Assoc.mem_of_get?_ofList hfn
    simp only [List.mem_cons, Prod.mk.injEq, List.not_mem_nil, or_false] at listed
    obtain ⟨_, rfl⟩ | ⟨_, rfl⟩ | ⟨_, rfl⟩ | ⟨_, rfl⟩ | ⟨_, rfl⟩ | ⟨_, rfl⟩ | ⟨_, rfl⟩ | ⟨_, rfl⟩ |
      ⟨_, rfl⟩ | ⟨_, rfl⟩ | ⟨_, rfl⟩ := listed
    any_goals exact Builtin.returnsLiterals_arithmetic
    any_goals exact Builtin.returnsLiterals_division
    any_goals exact Builtin.returnsLiterals_comparison
    · exact Builtin.returnsLiterals_negation
    · exact Builtin.returnsLiterals_concatenation
  obtain ⟨v, rfl⟩ := literals xs y ok
  exact lit v

namespace Database

/-! ## What can be reached -/

/-- **Databases that can be reached** from the empty one, together with the rules of each stratum
and the mode in which they were compiled: by adding facts and indices of the right size, by adding
rules, also in vain, by replacing everything but the facts and the strata, and by evaluating a
stratum, whether or not that ends well.  The facts that are added have the property `V`, and the
functions respect it. -/
inductive Reached (V : Term → Prop) : Database → List (Unification × List Rule) → Prop
  | new : Reached V {} []
  | put {db : Database} {program} {r : Relation} {tuple : Tuple} (h : Reached V db program)
      (arity : tuple.length = r.arity) (among : tuple.Among V) :
      Reached V { db with store := (db.store.add r tuple).1 } program
  | indexed {db : Database} {program} {r : Relation} {positions : List Nat} {store : Store}
      {n : IndexNumber} (h : Reached V db program) (arity : ∀ p ∈ positions, p < r.arity)
      (ok : db.store.register r positions = .ok (store, n)) : Reached V { db with store } program
  | stratum {db db' : Database} {program} {rules : List Rule} {number : Nat}
      (h : Reached V db program)
      (below : ∀ rule ∈ rules, ∀ v ∈ rule.occurrences, v.number < db.next)
      (ok : db.addStratum rules = (db', .ok number)) :
      Reached V db' (program ++ [(db.settings.unification, rules)])
  | rejected {db db' : Database} {program} {rules : List Rule} {e : PlanError}
      (h : Reached V db program)
      (below : ∀ rule ∈ rules, ∀ v ∈ rule.occurrences, v.number < db.next)
      (error : db.addStratum rules = (db', .error e)) : Reached V db' program
  | tuned {db db' : Database} {program} (h : Reached V db program) (store : db'.store = db.store)
      (strata : db'.strata = db.strata) (next : db'.next = db.next)
      (functions : db'.functions.Respect V) : Reached V db' program
  | evaluated {db : Database} {program} {s : Stratum} {schedule : Schedule} {budget : Nat}
      {e : Evaluation} {result : Except Fault Summary} (h : Reached V db program)
      (hs : s ∈ db.strata) (ran : (db.evaluation s).run schedule budget = some (e, result)) :
      Reached V (db.absorb e.world) program

/-- **A database in order**: its store is fit, its facts have the property, its strata are planned,
and its functions respect the property. -/
structure Sound (V : Term → Prop) (db : Database) (program : List (Unification × List Rule)) :
    Prop where
  fit : db.store.Fit
  stored : ∀ r t, db.store.Holds r t → t.Among V
  plans : List.Forall₂ (fun p s => Stratum.PlannedFrom p.1 p.2 s) program db.strata
  functions : db.functions.Respect V

variable {V : Term → Prop} {db db' db'' : Database} {program : List (Unification × List Rule)}

/-- **The same program**: strata, functions, and the numbers that are taken. -/
structure SameProgram (db db' : Database) : Prop where
  strata : db'.strata = db.strata
  functions : db'.functions = db.functions
  next : db'.next = db.next

/-- **The same program over the same store**, with whatever settings, tracked relations and
listener. -/
structure Retuned (db db' : Database) : Prop extends db.SameProgram db' where
  store : db'.store = db.store

namespace SameProgram

theorem refl (db : Database) : db.SameProgram db := ⟨rfl, rfl, rfl⟩

theorem trans (h : db.SameProgram db') (h' : db'.SameProgram db'') : db.SameProgram db'' :=
  ⟨h'.strata.trans h.strata, h'.functions.trans h.functions, h'.next.trans h.next⟩

theorem of_runStrata {schedule : Schedule} {budget number : Nat} {strata : List Stratum}
    {result : Except RunError Unit}
    (ran : runStrata schedule budget number strata db = some (db', result)) :
    db.SameProgram db' := by
  induction strata generalizing db number with
  | nil =>
    cases ran
    exact refl _
  | cons s rest ih =>
    rw [runStrata] at ran
    obtain ⟨⟨e, fault | summary⟩, _, ran⟩ := Option.bind_eq_some_iff.1 ran
    · cases ran
      exact ⟨rfl, rfl, rfl⟩
    · have first : db.SameProgram (db.absorb e.world) := ⟨rfl, rfl, rfl⟩
      exact first.trans (ih ran)

/-- **A run leaves the program as it is.** -/
theorem of_run {schedule : Schedule} {budget : Nat} {result : Except RunError Summary}
    (ran : db.run schedule budget = some (db', result)) : db.SameProgram db' := by
  rw [run] at ran
  obtain ⟨⟨db₁, error | u⟩, ran₁, ran⟩ := Option.bind_eq_some_iff.1 ran
  · cases ran
    exact of_runStrata ran₁
  · cases ran
    exact of_runStrata ran₁

end SameProgram

namespace Sound

/-- The clauses of the strata are in order. -/
theorem orderly (h : db.Sound V program) {s : Stratum} (hs : s ∈ db.strata) {c : PlannedClause}
    (hc : s.Has c) : c.clause.Orderly := by
  obtain ⟨p, _, planned⟩ := Outcome.exists_of_forall₂ h.plans.flip hs
  exact (Stratum.PlannedFrom.linked planned).orderly hc

/-- **Wherever an evaluation comes to** is in order. -/
theorem visits (inherited : Term.Inherited V) (h : db.Sound V program) {s : Stratum}
    (hs : s ∈ db.strata) {a : Agenda Task World} (visits : (db.evaluation s).Visits a) :
    a.world.Tidy V ∧ ∀ t ∈ a.waiting, t.Confined V s :=
  Evaluation.tidy_of_visits inherited h.functions (fun _ => h.orderly hs) h.fit h.stored visits

/-- Rules are added, or rejected. -/
theorem addStratum {rules : List Rule} {result : Except PlanError Nat}
    {program' : List (Unification × List Rule)} (h : db.Sound V program)
    (below : ∀ rule ∈ rules, ∀ v ∈ rule.occurrences, v.number < db.next)
    (added : db.addStratum rules = (db', result))
    (plans : List.Forall₂ (fun p s => Stratum.PlannedFrom p.1 p.2 s) program' db'.strata) :
    db'.Sound V program' := by
  have prepares := addStratum_prepares below
  have functions : (db.addStratum rules).1.functions = db.functions := addStratum_functions
  rw [added] at prepares functions
  exact ⟨prepares.fit h.fit, fun r t ht => h.stored r t ((prepares.holds r t).1 ht), plans,
    functions ▸ h.functions⟩

end Sound

namespace Reached

/-- **Whatever can be reached is in order.** -/
theorem sound (inherited : Term.Inherited V) (h : Reached V db program) : db.Sound V program := by
  induction h with
  | new =>
    exact ⟨Store.fit_empty, fun _ _ => nofun, .nil, Functions.respect_builtin inherited.lit⟩
  | put _ arity among ih =>
    refine { ih with fit := ih.fit.add arity, stored := fun r t ht => ?_ }
    rcases Store.holds_add_iff.1 ht with ht | ⟨_, rfl⟩
    · exact ih.stored r t ht
    · exact among
  | indexed _ arity ok ih =>
    exact { ih with
      fit := ih.fit.register arity ok
      stored := fun r t ht => ih.stored r t ((Store.holds_register_iff ok).1 ht) }
  | stratum _ below ok ih =>
    obtain ⟨s, planned, strata⟩ := addStratum_ok below ok
    exact ih.addStratum below ok (strata ▸ List.rel_append ih.plans (.cons planned .nil))
  | rejected _ below error ih =>
    exact ih.addStratum below error (addStratum_error error ▸ ih.plans)
  | tuned _ store strata _ functions ih =>
    exact ⟨store ▸ ih.fit, store ▸ ih.stored, strata ▸ ih.plans, functions⟩
  | evaluated _ hs ran ih =>
    obtain ⟨_, a, visits, _, world, _⟩ := Evaluation.exists_visit ran
    have tidy := (ih.visits inherited hs visits).1
    rw [← world] at tidy
    exact { ih with fit := tidy.fit, stored := tidy.stored }

/-! ## The operations -/

/-- A fact can be added, if values have the property. -/
theorem fact (h : Reached V db program) (values : ∀ x, x.isValue = true → V x) {a : Atom}
    {insertion : Insertion} (ok : db.addFact a = .ok (db', insertion)) : Reached V db' program := by
  rw [addFact] at ok
  split at ok
  · cases ok
  · next arity =>
    split at ok
    · cases ok
    · next ground =>
      cases ok
      refine h.put (not_not.1 arity) fun x hx => values x ?_
      simp only [Bool.or_eq_true, Bool.not_eq_true', not_or, Bool.not_eq_false,
        List.all_eq_true] at ground
      exact ground.2 x hx

/-- Facts of the right arity can be added. -/
theorem addAll (h : Reached V db program) {facts : List (Relation × Tuple)}
    (hf : ∀ f ∈ facts, f.2.length = f.1.arity ∧ f.2.Among V) :
    Reached V { db with store := db.store.addAll facts } program := by
  induction facts generalizing db with
  | nil => exact h
  | cons f facts ih =>
    rw [List.forall_mem_cons] at hf
    exact ih (h.put hf.1.1 hf.1.2) hf.2

/-- Rules that are not rejected can be added. -/
theorem addStratum {rules : List Rule} (h : Reached V db program)
    (below : ∀ rule ∈ rules, ∀ v ∈ rule.occurrences, v.number < db.next)
    (ok : (db.addStratum rules).2.toBool = true) :
    Reached V (db.addStratum rules).1 (program ++ [(db.settings.unification, rules)]) := by
  cases added : db.addStratum rules with | mk db' result =>
  cases result with
  | ok number => exact h.stratum below added
  | error e =>
    rw [added] at ok
    cases ok

theorem retuned (inherited : Term.Inherited V) (h : Reached V db program) (same : db.Retuned db') :
    Reached V db' program :=
  h.tuned same.store same.strata same.next (same.functions ▸ (h.sound inherited).functions)

theorem track (inherited : Term.Inherited V) (h : Reached V db program) (r : Relation) :
    Reached V (db.track r) program :=
  h.retuned inherited ⟨⟨rfl, rfl, rfl⟩, rfl⟩

theorem withSettings (inherited : Term.Inherited V) (h : Reached V db program)
    (settings : Settings) : Reached V (db.withSettings settings) program :=
  h.retuned inherited ⟨⟨rfl, rfl, rfl⟩, rfl⟩

theorem withFunctions (h : Reached V db program) {functions : Functions}
    (respect : functions.Respect V) : Reached V { db with functions } program :=
  h.tuned rfl rfl rfl respect

theorem runStrata {schedule : Schedule} {budget number : Nat} {strata : List Stratum}
    {result : Except RunError Unit} (h : Reached V db program) (hs : strata ⊆ db.strata)
    (ran : runStrata schedule budget number strata db = some (db', result)) :
    Reached V db' program := by
  induction strata generalizing db number with
  | nil =>
    cases ran
    exact h
  | cons s rest ih =>
    rw [List.cons_subset] at hs
    rw [Database.runStrata] at ran
    obtain ⟨⟨e, fault | summary⟩, first, ran⟩ := Option.bind_eq_some_iff.1 ran
    · cases ran
      exact h.evaluated hs.1 first
    · exact ih (h.evaluated hs.1 first) hs.2 ran

/-- **A database can be run**, whether or not that ends well. -/
theorem run {schedule : Schedule} {budget : Nat} {result : Except RunError Summary}
    (h : Reached V db program) (ran : db.run schedule budget = some (db', result)) :
    Reached V db' program := by
  rw [Database.run] at ran
  obtain ⟨⟨db₁, error | u⟩, ran₁, ran⟩ := Option.bind_eq_some_iff.1 ran
  · cases ran
    exact h.runStrata (List.Subset.refl _) ran₁
  · cases ran
    exact h.runStrata (List.Subset.refl _) ran₁

/-! ## Well-formed facts -/

/-- **Facts are well formed, and tasks know their places.**  Take any database that can be reached
with functions that return values for values.  Every tuple in it has as many terms as its relation
has arguments, and these are values; and wherever an evaluation of one of its strata comes to, the
same holds of the store, a waiting task that goes on does so after a slot of its clause, and a task
that is run crashes only if a native function does. -/
theorem wellFormed (h : Reached (fun x => x.isValue = true) db program) :
    (∀ r t, db.store.Holds r t → t.length = r.arity ∧ ∀ x ∈ t, x.isValue = true) ∧
    ∀ s ∈ db.strata, ∀ a, (db.evaluation s).Visits a →
      (∀ r t, a.world.store.Holds r t → t.length = r.arity ∧ ∀ x ∈ t, x.isValue = true) ∧
      ∀ task ∈ a.waiting,
        (∀ r, task.resumption = some r → ∃ pre slot, task.clause.body = pre ++ slot :: r.rest) ∧
        ∀ failed message, (task.run (db.evaluation s).context failed a.world).result =
          .error (.crash message) → ∃ name fn xs, db.functions.get? name = some fn ∧
            fn.arity = xs.length ∧ fn.run xs = .error (.crash message) := by
  have inherited := Term.inherited_isValue
  have sound := h.sound inherited
  refine ⟨fun r t ht => ⟨sound.fit.measured r t ht, sound.stored r t ht⟩, fun s hs a visits => ?_⟩
  obtain ⟨world, waiting⟩ := sound.visits inherited hs visits
  refine ⟨fun r t ht => ⟨world.fit.measured r t ht, world.stored r t ht⟩, fun task ht => ?_⟩
  refine ⟨fun r hr => ((waiting task ht).resumes r hr).1, fun failed message crash => ?_⟩
  have respect : (db.evaluation s).context.functions.Respect _ := sound.functions
  obtain ⟨_, _, native⟩ := Work.run_tidy inherited respect (fun _ => sound.orderly hs) failed
    (waiting task ht) world
  exact native _ crash message rfl

end Reached

end Database

/-! ## An example -/

namespace Absent

theorem reached {V : Term → Prop} (lit : ∀ v, V (.lit v)) (mode : Unification) :
    Database.Reached V (database mode) [(mode, first), (mode, second)] := by
  have one {i : Int64} : Tuple.Among V [.int i] := List.forall_mem_singleton.2 (lit _)
  have start : Database.Reached V { settings := { unification := mode } } [] :=
    Database.Reached.new.tuned rfl rfl rfl (Functions.respect_builtin lit)
  have numbers := (start.put (r := n) rfl (one (i := 1))).put (r := n) rfl (one (i := 2))
  have facts : Database.Reached V (bare mode) [] := numbers.put (r := e) rfl (one (i := 1))
  have half : Database.Reached V (half mode) [(mode, first)] :=
    facts.addStratum below_first (by cases mode <;> cbv)
  have both := half.addStratum (below_second mode) (by cases mode <;> cbv)
  rw [Absent.half, Database.addStratum_settings] at both
  exact both

/-- The database after a run is in order, and so is whatever another run comes to. -/
theorem exists_wellFormed : ∃ db summary,
    (database .assign).run Policy.newest 20 = some (db, .ok summary) ∧
      (∀ r t, db.store.Holds r t → t.length = r.arity ∧ ∀ x ∈ t, x.isValue = true) ∧
      ∀ s ∈ db.strata, ∀ a, (db.evaluation s).Visits a →
        (∀ r t, a.world.store.Holds r t → t.length = r.arity ∧ ∀ x ∈ t, x.isValue = true) ∧
        ∀ task ∈ a.waiting,
          (∀ r, task.resumption = some r → ∃ pre slot, task.clause.body = pre ++ slot :: r.rest) ∧
          ∀ failed message, (task.run (db.evaluation s).context failed a.world).result =
            .error (.crash message) → ∃ name fn xs, db.functions.get? name = some fn ∧
              fn.arity = xs.length ∧ fn.run xs = .error (.crash message) := by
  have ok : ((database .assign).run Policy.newest 20).any (fun r => r.2.toBool) = true := by cbv
  obtain ⟨⟨db, _ | summary⟩, ran, ok⟩ := (Option.any_eq_true ..).1 ok
  · cases ok
  · exact ⟨db, summary, ran, Database.Reached.wellFormed ((reached (fun _ => rfl) .assign).run ran)⟩

end Absent

end Datalog
