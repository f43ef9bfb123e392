import Datalog.Database.Basic
import Datalog.Proofs.Evaluation.Fixpoint
import Datalog.Proofs.Strata

/-!
# Proofs/Database — what running a database makes of its facts

A database that is filled with facts and rules keeps its indices complete and has a planned stratum
for each list of rules (`Database.Filled`).  Running it closes the facts under one stratum after the
other, which is the iterated fixpoint if the program is in order (`Database.iterated_of_run`); and
since a complete store does not depend on how the rules were compiled, neither do the facts in the
end (`Database.holds_iff_of_run`).
-/

namespace Datalog

/-! ## Stages -/

namespace Facts

/-- **One admission after the other.** -/
def admissions (fns : Functions) : List (List Rule) → Facts → Facts
  | [], F => F
  | rules :: rest, F => admissions fns rest (admission fns rules F)

end Facts

namespace Database

section

variable {db : Database} {rules : List Rule}

/-- **Rules that are added, or rejected**, prepare the store. -/
theorem addStratum_prepares (below : ∀ rule ∈ rules, ∀ v ∈ rule.occurrences, v.number < db.next) :
    PlanState.Prepares ⟨db.store, db.next⟩
      ⟨(db.addStratum rules).1.store, (db.addStratum rules).1.next⟩ := by
  have careful : Plan.Careful db.next (fun _ => True)
      (Stratum.plan db.settings.unification db.functions rules) := Stratum.plan_careful below
  obtain ⟨ok, error⟩ := careful ⟨db.store, db.next⟩ (Nat.le_refl _)
  rw [addStratum]
  split
  · next s st plan => exact (ok s st plan).1
  · next e st plan => exact error e st plan

theorem addStratum_holds (below : ∀ rule ∈ rules, ∀ v ∈ rule.occurrences, v.number < db.next)
    {r : Relation} {t : Tuple} : (db.addStratum rules).1.store.Holds r t ↔ db.store.Holds r t :=
  (addStratum_prepares below).holds r t

theorem addStratum_next (below : ∀ rule ∈ rules, ∀ v ∈ rule.occurrences, v.number < db.next) :
    db.next ≤ (db.addStratum rules).1.next :=
  (addStratum_prepares below).next

/-- **Rules that are accepted** are planned as the last stratum. -/
theorem addStratum_ok {db' : Database} {number : Nat}
    (below : ∀ rule ∈ rules, ∀ v ∈ rule.occurrences, v.number < db.next)
    (ok : db.addStratum rules = (db', .ok number)) :
    ∃ s, Stratum.PlannedFrom db.settings.unification rules s ∧ db'.strata = db.strata ++ [s] := by
  rw [addStratum] at ok
  split at ok
  · next s st plan =>
    cases ok
    exact ⟨s, ⟨_, _, _, below, plan⟩, rfl⟩
  · cases ok

theorem addStratum_error {db' : Database} {e : PlanError}
    (error : db.addStratum rules = (db', .error e)) : db'.strata = db.strata := by
  rw [addStratum] at error
  split at error
  · cases error
  · cases error
    rfl

theorem addStratum_settings : (db.addStratum rules).1.settings = db.settings := by
  rw [addStratum]
  split <;> rfl

theorem addStratum_functions : (db.addStratum rules).1.functions = db.functions := by
  rw [addStratum]
  split <;> rfl

end

/-- Strata are planned, if no rule negates an atom over a relation of its own stratum. -/
theorem planned_of_static {program : List (Unification × List Rule)} {strata : List Stratum}
    (plans : List.Forall₂ (fun p s => Stratum.PlannedFrom p.1 p.2 s) program strata)
    (static : ∀ rules ∈ program.map Prod.snd, ∀ rule ∈ rules, ∀ a, .atom a ∈ rule.body →
      a.negated = true → a.relation ∉ rules.map (·.head.relation)) :
    List.Forall₂ (fun p s => Stratum.Planned p.1 p.2 s) program strata := by
  induction plans with
  | nil => exact .nil
  | cons plan _ ih =>
    rw [List.map_cons, List.forall_mem_cons] at static
    exact .cons ⟨plan, static.1⟩ (ih static.2)

/-- **Databases filled with facts and rules**, together with the rules of each stratum and the
mode in which they were compiled.  At the start there are indices and tuples of the right arity, and
no insertion has failed; none fails later on.  A rejected stratum leaves its mark on the store, and
everything but the store and the strata can be replaced at any time. -/
inductive Filled : Database → List (Unification × List Rule) → Prop
  | start {db : Database} (built : db.store.Built) (measured : Facts.Measured db.store.Holds)
      (none : db.strata = []) : Filled db []
  | put {db : Database} {program} {r : Relation} {tuple : Tuple} (h : Filled db program)
      (arity : tuple.length = r.arity) (fits : ∀ m, (db.store.add r tuple).2 ≠ .misfit m) :
      Filled { db with store := (db.store.add r tuple).1 } program
  | stratum {db db' : Database} {program} {rules : List Rule} {number : Nat} (h : Filled db program)
      (below : ∀ rule ∈ rules, ∀ v ∈ rule.occurrences, v.number < db.next)
      (ok : db.addStratum rules = (db', .ok number)) :
      Filled db' (program ++ [(db.settings.unification, rules)])
  | rejected {db db' : Database} {program} {rules : List Rule} {e : PlanError} (h : Filled db program)
      (below : ∀ rule ∈ rules, ∀ v ∈ rule.occurrences, v.number < db.next)
      (error : db.addStratum rules = (db', .error e)) : Filled db' program
  | tuned {db db' : Database} {program} (h : Filled db program) (store : db'.store = db.store)
      (strata : db'.strata = db.strata) (next : db'.next = db.next) : Filled db' program

namespace Filled

variable {db db' : Database} {program : List (Unification × List Rule)}

/-- A fact can be added, if all indices can take it. -/
theorem fact {a : Atom} {insertion : Insertion} (h : Filled db program)
    (ok : db.addFact a = .ok (db', insertion)) (fits : ∀ m, insertion ≠ .misfit m) :
    Filled db' program := by
  rw [addFact] at ok
  split at ok
  · cases ok
  · next arity =>
    split at ok
    · cases ok
    · cases ok
      exact h.put (not_not.1 arity) fits

/-- If all indices are on positions of their relations, they can take any fact. -/
theorem fact_of_shaped {a : Atom} {insertion : Insertion} (h : Filled db program)
    (shaped : db.store.Shaped) (ok : db.addFact a = .ok (db', insertion)) :
    Filled db' program ∧ db'.store.Shaped := by
  rw [addFact] at ok
  split at ok
  · cases ok
  · next arity =>
    split at ok
    · cases ok
    · cases ok
      exact ⟨h.put (not_not.1 arity) (shaped.fits (not_not.1 arity)), shaped.add⟩

/-- Rules that are not rejected can be added. -/
theorem addStratum {rules : List Rule} (h : Filled db program)
    (below : ∀ rule ∈ rules, ∀ v ∈ rule.occurrences, v.number < db.next)
    (ok : (db.addStratum rules).2.toBool = true) :
    Filled (db.addStratum rules).1 (program ++ [(db.settings.unification, rules)]) := by
  cases hdb : db.addStratum rules with | mk db' result =>
  cases result with
  | ok number => exact h.stratum below hdb
  | error e =>
    rw [hdb] at ok
    cases ok

/-- **The indices are complete and the tuples have the right arity**, and each stratum was planned
from its rules. -/
theorem sound (h : Filled db program) : db.store.Built ∧ Facts.Measured db.store.Holds ∧
    List.Forall₂ (fun p s => Stratum.PlannedFrom p.1 p.2 s) program db.strata := by
  induction h with
  | start built measured none =>
    rw [none]
    exact ⟨built, measured, .nil⟩
  | put _ arity fits ih => exact ⟨ih.1.add fits, ih.2.1.add arity, ih.2.2⟩
  | stratum _ below ok ih =>
    have prepares := addStratum_prepares below
    obtain ⟨s, planned, strata⟩ := addStratum_ok below ok
    rw [ok] at prepares
    exact ⟨prepares.built ih.1, prepares.measured ih.2.1,
      strata ▸ List.rel_append ih.2.2 (.cons planned .nil)⟩
  | rejected _ below error ih =>
    have prepares := addStratum_prepares below
    rw [error] at prepares
    exact ⟨prepares.built ih.1, prepares.measured ih.2.1, addStratum_error error ▸ ih.2.2⟩
  | tuned _ store strata _ ih =>
    rw [store, strata]
    exact ih

/-- Each stratum is planned, if no rule negates an atom over a relation of its own stratum. -/
theorem planned (h : Filled db program)
    (static : ∀ rules ∈ program.map Prod.snd, ∀ rule ∈ rules, ∀ a, .atom a ∈ rule.body →
      a.negated = true → a.relation ∉ rules.map (·.head.relation)) :
    List.Forall₂ (fun p s => Stratum.Planned p.1 p.2 s) program db.strata :=
  planned_of_static h.sound.2.2 static

end Filled

/-! ## Programs in order -/

/-- **A program in order is planned in order.** -/
theorem stratified_of_planned {program : List (Unification × List Rule)} {strata : List Stratum}
    (planned : List.Forall₂ (fun p s => Stratum.Planned p.1 p.2 s) program strata)
    (order : Rule.Stratified (program.map Prod.snd)) :
    Clause.Stratified (strata.map Stratum.clauses) := by
  induction planned with
  | nil => exact ⟨nofun, .nil⟩
  | @cons p s program strata planned rest ih =>
    obtain ⟨first, settled⟩ := List.pairwise_cons.1 order.settled
    have later := ih ⟨fun rules hr => order.static rules (List.mem_cons_of_mem _ hr), settled⟩
    refine ⟨List.forall_mem_cons.2 ⟨?_, later.static⟩, List.pairwise_cons.2 ⟨?_, later.settled⟩⟩
    · have none : Facts.Measured fun _ _ => False := nofun
      have diff : s.Differential ∅ p.2 fun _ _ => False := planned.differential none
      exact diff.static_clauses
    · rintro _ hlater c hc g hg k hk hr
      obtain ⟨s', hs', rfl⟩ := List.mem_map.1 hlater
      obtain ⟨p', hp', planned'⟩ := Outcome.exists_of_forall₂ rest.flip hs'
      obtain ⟨rule, hrule, a, ha, relation, _⟩ := planned.exists_atom hc hg
      refine first p'.2 (List.mem_map_of_mem hp') rule hrule a ha ?_
      exact planned'.heads_iff.1 ⟨k, hk, hr.trans relation.symm⟩

/-! ## Running -/

variable {schedule : Schedule} {budget : Nat} {db db' : Database}
  {program : List (Unification × List Rule)}

/-- **Running strata** closes the facts under one after the other. -/
theorem holds_of_runStrata {strata : List Stratum} {number : Nat} {u : Unit}
    (planned : List.Forall₂ (fun p s => Stratum.Planned p.1 p.2 s) program strata)
    (built : db.store.Built) (measured : Facts.Measured db.store.Holds)
    (h : runStrata schedule budget number strata db = some (db', .ok u)) :
    db'.store.Holds = Facts.stages db.functions (strata.map Stratum.clauses) db.store.Holds ∧
      db'.store.Holds = Facts.admissions db.functions (program.map Prod.snd) db.store.Holds := by
  induction planned generalizing db number with
  | nil =>
    cases h
    exact ⟨rfl, rfl⟩
  | @cons p s program strata planned _ ih =>
    rw [runStrata] at h
    obtain ⟨⟨e, fault | summary⟩, ran, h⟩ := Option.bind_eq_some_iff.1 h
    · cases h
    have complete := Evaluation.complete_of_run planned built measured ran
    obtain ⟨stages, admissions⟩ := ih complete.built complete.measured h
    have first : e.world.store.Holds = Facts.closure db.functions s.clauses db.store.Holds :=
      funext fun r => funext fun t => propext (complete.holds r t)
    have first' : e.world.store.Holds = Facts.admission db.functions p.2 db.store.Holds :=
      funext fun r => funext fun t =>
        propext (complete.holds_iff_admission planned.linked measured)
    constructor
    · rw [stages]
      change Facts.stages db.functions _ e.world.store.Holds = _
      rw [first]
      rfl
    · rw [admissions]
      change Facts.admissions db.functions _ e.world.store.Holds = _
      rw [first']
      rfl

/-- **Running a database** runs its strata. -/
theorem holds_of_run (built : db.store.Built) (measured : Facts.Measured db.store.Holds)
    (planned : List.Forall₂ (fun p s => Stratum.Planned p.1 p.2 s) program db.strata)
    {summary : Summary} (h : db.run schedule budget = some (db', .ok summary)) :
    db'.store.Holds = Facts.stages db.functions (db.strata.map Stratum.clauses) db.store.Holds ∧
      db'.store.Holds = Facts.admissions db.functions (program.map Prod.snd) db.store.Holds := by
  rw [run] at h
  obtain ⟨⟨db₁, error | u⟩, ran, h⟩ := Option.bind_eq_some_iff.1 h
  · cases h
  · cases h
    exact holds_of_runStrata planned built measured ran

/-- **Running a database makes the iterated fixpoint of its facts.**  If its program is in order
and the run ends well, the facts in the end are those that there were, closed under one stratum
after the other, with absence meaning absence in the end.  Every stratum is closed in the end, the
first ones too, and there is nothing new of a relation that heads no rule. -/
theorem iterated_of_run (filled : Filled db program) (order : Rule.Stratified (program.map Prod.snd))
    {summary : Summary} (h : db.run schedule budget = some (db', .ok summary)) :
    (∀ r t, db'.store.Holds r t ↔ Facts.iterated db.functions db'.store.Holds
      (db.strata.map Stratum.clauses) db.store.Holds r t) ∧
    (∀ s ∈ db.strata, db'.store.Holds.Closed db.functions s.clauses db'.store.Holds) ∧
    ∀ r, (∀ rules ∈ program.map Prod.snd, r ∉ rules.map (·.head.relation)) → ∀ t,
      db'.store.Holds r t ↔ db.store.Holds r t := by
  have planned := filled.planned order.static
  have stratified := stratified_of_planned planned order
  obtain ⟨built, measured, _⟩ := filled.sound
  obtain ⟨stages, _⟩ := holds_of_run built measured planned h
  rw [stages]
  refine ⟨fun r t => ?_, fun s hs => ?_, fun r hr t => Facts.stages_iff ?_⟩
  · rw [← Facts.stages_eq_iterated stratified]
  · exact Facts.closed_stages stratified _ (List.mem_map_of_mem hs)
  · rintro _ hclauses c hc rfl
    obtain ⟨s, hs, rfl⟩ := List.mem_map.1 hclauses
    obtain ⟨p, hp, planned⟩ := Outcome.exists_of_forall₂ planned.flip hs
    exact hr p.2 (List.mem_map_of_mem hp) (planned.heads_iff.1 ⟨c, hc, rfl⟩)

/-- **How the rules are compiled makes no difference to the facts in the end.**  Take two
databases with the same facts and the same rules in the same strata, each compiled in a mode of
its own, and with the same functions.  If no rule negates an atom over a relation of its own
stratum, and both runs end well, on whatever schedules and with whatever settings, they leave the
same facts. -/
theorem holds_iff_of_run {db₁ db₂ db₁' db₂' : Database}
    {program₁ program₂ : List (Unification × List Rule)}
    (filled₁ : Filled db₁ program₁) (filled₂ : Filled db₂ program₂)
    (rules : program₁.map Prod.snd = program₂.map Prod.snd)
    (static : ∀ rules ∈ program₁.map Prod.snd, ∀ rule ∈ rules, ∀ a, .atom a ∈ rule.body →
      a.negated = true → a.relation ∉ rules.map (·.head.relation))
    (functions : db₁.functions = db₂.functions)
    (facts : ∀ r t, db₁.store.Holds r t ↔ db₂.store.Holds r t)
    {schedule₁ schedule₂ : Schedule} {budget₁ budget₂ : Nat} {summary₁ summary₂ : Summary}
    (h₁ : db₁.run schedule₁ budget₁ = some (db₁', .ok summary₁))
    (h₂ : db₂.run schedule₂ budget₂ = some (db₂', .ok summary₂)) (r : Relation) (t : Tuple) :
    db₁'.store.Holds r t ↔ db₂'.store.Holds r t := by
  have start : db₁.store.Holds = db₂.store.Holds :=
    funext fun r => funext fun t => propext (facts r t)
  obtain ⟨built₁, measured₁, _⟩ := filled₁.sound
  obtain ⟨built₂, measured₂, _⟩ := filled₂.sound
  have first := (holds_of_run built₁ measured₁ (filled₁.planned static) h₁).2
  have second := (holds_of_run built₂ measured₂ (filled₂.planned (rules ▸ static)) h₂).2
  rw [first, second, rules, functions, start]

end Database

/-! ## Examples -/

/-- **The same facts at the start, and not in the end**: both runs end well, on their schedules, and
only the first one leaves the fact. -/
def Database.Differ (db₁ db₂ : Database) (schedule₁ schedule₂ : Schedule) (r : Relation)
    (t : Tuple) : Prop :=
  (∀ r t, db₁.store.Holds r t ↔ db₂.store.Holds r t) ∧
    ∃ db₁' summary₁ db₂' summary₂, db₁.run schedule₁ 20 = some (db₁', .ok summary₁) ∧
      db₂.run schedule₂ 20 = some (db₂', .ok summary₂) ∧ db₁'.store.Holds r t ∧
      ¬db₂'.store.Holds r t

theorem Database.differ_of_runs {db₁ db₂ : Database} {schedule₁ schedule₂ : Schedule} {r : Relation}
    {t : Tuple} (facts : ∀ r t, db₁.store.Holds r t ↔ db₂.store.Holds r t)
    (ok₁ : (db₁.run schedule₁ 20).any (fun z => z.2.toBool && z.1.store.contains r t) = true)
    (ok₂ : (db₂.run schedule₂ 20).any (fun z => z.2.toBool && !z.1.store.contains r t) = true) :
    db₁.Differ db₂ schedule₁ schedule₂ r t := by
  obtain ⟨⟨db₁', _ | summary₁⟩, ran₁, ok₁⟩ := (Option.any_eq_true ..).1 ok₁
  · cases ok₁
  obtain ⟨⟨db₂', _ | summary₂⟩, ran₂, ok₂⟩ := (Option.any_eq_true ..).1 ok₂
  · cases ok₂
  refine ⟨facts, db₁', summary₁, db₂', summary₂, ran₁, ran₂, Store.contains_iff.1 ok₁,
    fun held => ?_⟩
  have none := ok₂
  rw [Store.contains_iff.2 held] at none
  cases none

namespace Absent

/-- The numbers that the second stratum chooses from. -/
def n : Relation := ⟨"n", 1, .extensional⟩

/-- The numbers that the first stratum starts from. -/
def e : Relation := ⟨"e", 1, .extensional⟩

/-- What comes after a number of `e`. -/
def p : Relation := ⟨"p", 1, .bottomUp⟩

/-- The numbers that do not. -/
def q : Relation := ⟨"q", 1, .bottomUp⟩

/-- `p(y) :- e(x), y = add(x, 1).` -/
def first : List Rule :=
  let x : Term := .var ⟨"x", 0⟩
  let y : Term := .var ⟨"y", 0⟩
  [{ head := { relation := p, args := [y] }
     body := [.atom { relation := e, args := [x] },
      .unify y (.call "add" [x, .int 1]) false] }]

/-- `q(x) :- n(x), !p(x).` -/
def second : List Rule :=
  let x : Term := .var ⟨"x", 0⟩
  [{ head := { relation := q, args := [x] }
     body := [.atom { relation := n, args := [x] },
      .atom { relation := p, args := [x], negated := true }] }]

/-- The numbers 1 and 2, and the edge from 1. -/
def store : Store := (((Store.add ∅ n [.int 1]).1.add n [.int 2]).1.add e [.int 1]).1

/-- The database with its facts and no strata. -/
def bare (mode : Unification) : Database := { store, settings := { unification := mode } }

/-- The database with the first stratum. -/
def half (mode : Unification) : Database := ((bare mode).addStratum first).1

/-- The database with both strata. -/
def database (mode : Unification) : Database := ((half mode).addStratum second).1

theorem below_first : ∀ rule ∈ first, ∀ v ∈ rule.occurrences, v.number < 1 := by decide

theorem below_second (mode : Unification) : ∀ rule ∈ second, ∀ v ∈ rule.occurrences,
    v.number < (half mode).next := by
  have below : ∀ rule ∈ second, ∀ v ∈ rule.occurrences, v.number < 1 := by decide
  have next : (bare mode).next ≤ (half mode).next := Database.addStratum_next below_first
  exact fun rule hr v hv => Nat.lt_of_lt_of_le (below rule hr v hv) next

theorem filled (mode : Unification) :
    Database.Filled (database mode) [(mode, first), (mode, second)] := by
  have fit : store.Fit := ((Store.fit_empty.add rfl).add rfl).add rfl
  have start : Database.Filled (bare mode) [] := .start fit.built fit.measured rfl
  have one : Database.Filled (half mode) [(mode, first)] :=
    start.addStratum below_first (by cases mode <;> cbv)
  have two := one.addStratum (below_second mode) (by cases mode <;> cbv)
  rw [half, Database.addStratum_settings] at two
  exact two

theorem functions (mode : Unification) : (database mode).functions = .builtin := by
  rw [database, Database.addStratum_functions, half, Database.addStratum_functions, bare]

theorem holds_iff {mode : Unification} {r : Relation} {t : Tuple} :
    (database mode).store.Holds r t ↔ store.Holds r t := by
  have half_holds : (half mode).store.Holds r t ↔ (bare mode).store.Holds r t :=
    Database.addStratum_holds below_first
  exact (Database.addStratum_holds (below_second mode)).trans half_holds

theorem order : Rule.Stratified [first, second] where
  static := by simp [first, second, n, p, q]
  settled := by simp [first, second, e, q]

/-- Of the two numbers only 2 is a successor, so `q` has 1. -/
theorem exists_iterated : ∃ db summary,
    (database .assign).run Policy.newest 20 = some (db, .ok summary) ∧ db.store.Holds q [.int 1] ∧
      (∀ r t, db.store.Holds r t ↔ Facts.iterated (database .assign).functions db.store.Holds
        ((database .assign).strata.map Stratum.clauses) (database .assign).store.Holds r t) ∧
      (∀ s ∈ (database .assign).strata,
        db.store.Holds.Closed (database .assign).functions s.clauses db.store.Holds) ∧
      ∀ r, (∀ rules ∈ [first, second], r ∉ rules.map (·.head.relation)) → ∀ t,
        db.store.Holds r t ↔ (database .assign).store.Holds r t := by
  have ok : ((database .assign).run Policy.newest 20).any
      (fun r => r.2.toBool && r.1.store.contains q [.int 1]) = true := by cbv
  obtain ⟨⟨db, _ | summary⟩, ran, ok⟩ := (Option.any_eq_true ..).1 ok
  · cases ok
  · exact ⟨db, summary, ran, Store.contains_iff.1 ok,
      Database.iterated_of_run (filled .assign) order ran⟩

/-- Compiled in either mode, the rules leave the same facts. -/
theorem exists_same : ∃ db₁ summary₁ db₂ summary₂,
    (database .assign).run Policy.newest 20 = some (db₁, .ok summary₁) ∧
      (database .inline).run Policy.newest 20 = some (db₂, .ok summary₂) ∧
      ∀ r t, db₁.store.Holds r t ↔ db₂.store.Holds r t := by
  have ran (mode : Unification) : ∃ db summary,
      (database mode).run Policy.newest 20 = some (db, .ok summary) := by
    have ok : ((database mode).run Policy.newest 20).any (fun r => r.2.toBool) = true := by
      cases mode <;> cbv
    obtain ⟨⟨db, _ | summary⟩, ran, ok⟩ := (Option.any_eq_true ..).1 ok
    · cases ok
    · exact ⟨db, summary, ran⟩
  obtain ⟨db₁, summary₁, ran₁⟩ := ran .assign
  obtain ⟨db₂, summary₂, ran₂⟩ := ran .inline
  refine ⟨db₁, summary₁, db₂, summary₂, ran₁, ran₂, ?_⟩
  exact Database.holds_iff_of_run (filled .assign) (filled .inline) rfl order.static
    ((functions .assign).trans (functions .inline).symm) (fun r t => holds_iff.trans holds_iff.symm)
    ran₁ ran₂

end Absent

namespace Ragged

/-- The keys of `p` under a number. -/
def e : Relation := ⟨"e", 2, .extensional⟩

/-- Pairs under a key. -/
def p : Relation := ⟨"p", 3, .extensional⟩

/-- The pairs under the keys of 0. -/
def q : Relation := ⟨"q", 2, .bottomUp⟩

/-- `q(y, x) :- e(0, k), p(k, y, x).` -/
def rules : List Rule :=
  let k : Term := .var ⟨"k", 0⟩
  let x : Term := .var ⟨"x", 0⟩
  let y : Term := .var ⟨"y", 0⟩
  [{ head := { relation := q, args := [y, x] }
     body := [.atom { relation := e, args := [.int 0, k] },
      .atom { relation := p, args := [k, y, x] }] }]

/-- Of the seven tuples of `p` for the key 1, the one in the middle is too short. -/
def fill (s : Store) : Store :=
  let keys : List Tuple := [[.int 0, .int 5], [.int 0, .int 1], [.int 0, .int 6]]
  let tuples : List Tuple := [[.int 5, .int 0, .int 10], [.int 6, .int 0, .int 10],
    [.int 1, .int 1, .int 20], [.int 1, .int 2, .int 20], [.int 1, .int 3, .int 20], [.int 1, .int 9],
    [.int 1, .int 4, .int 20], [.int 1, .int 5, .int 20], [.int 1, .int 6, .int 20]]
  tuples.foldl (fun s t => (s.add p t).1) (keys.foldl (fun s t => (s.add e t).1) s)

/-- The facts come after the rules. -/
def database (settings : Settings) : Database :=
  let db := (Database.addStratum { settings } rules).1
  { db with store := fill db.store }

theorem holds_congr {settings settings' : Settings} {r : Relation} {t : Tuple} :
    (database settings).store.Holds r t ↔ (database settings').store.Holds r t := by
  have below : ∀ rule ∈ rules, ∀ v ∈ rule.occurrences, v.number < 1 := by decide
  have bare (settings : Settings) :
      (Database.addStratum { settings } rules).1.store.Holds r t ↔ Store.Holds ∅ r t :=
    Database.addStratum_holds below
  rw [database, database]
  dsimp only
  rw [fill, fill]
  rw [Store.holds_foldl_add, Store.holds_foldl_add, Store.holds_foldl_add, Store.holds_foldl_add,
    bare settings, bare settings']

/-- The goal finds the short tuple and leaves `x` as the tuple before has bound it, and in a batch of
its own there is another tuple before it. -/
theorem differ : (database { unification := .assign }).Differ
    (database { unification := .inline, taskSize := 3 }) Policy.newest Policy.newest q
    [.int 9, .int 20] :=
  Database.differ_of_runs (fun _ _ => holds_congr) (by cbv) (by cbv)

end Ragged

namespace Torn

/-- The torn store with no rules. -/
def bare (mode : Unification) : Database := { store := start, settings := { unification := mode } }

/-- The rules over the torn store, compiled in the mode. -/
def database (mode : Unification) : Database := ((bare mode).addStratum rules).1

theorem holds_database {mode : Unification} {u : Relation} {t : Tuple} :
    (database mode).store.Holds u t ↔ start.Holds u t := by
  have first : ∀ rule ∈ rules, ∀ v ∈ rule.occurrences, v.number < (bare mode).next := below
  rw [database, Database.addStratum_holds first, bare]

/-- If the oldest task runs first, the base clause goes from `q` to a fact of `p` that is there
already, and needs no index of `q`. -/
theorem differ : (database .inline).Differ (database .assign) (fun a => a.waiting.length - 1)
    Policy.newest r [.int 1] :=
  Database.differ_of_runs (fun _ _ => holds_database.trans holds_database.symm) (by cbv) (by cbv)

end Torn

/-- **Where settings and schedules do matter**: if a tuple is too short for its relation, or an
insertion has failed before the run, even though every tuple has the right arity. -/
theorem Database.exists_difference :
    (Ragged.database { unification := .assign }).Differ
      (Ragged.database { unification := .inline, taskSize := 3 }) Policy.newest Policy.newest Ragged.q
      [.int 9, .int 20] ∧
    (∀ mode, Facts.Measured (Torn.database mode).store.Holds) ∧
    (Torn.database .inline).Differ (Torn.database .assign) (fun a => a.waiting.length - 1)
      Policy.newest Torn.r [.int 1] :=
  ⟨Ragged.differ, fun _ _ _ ht => (Torn.values (Torn.holds_database.1 ht)).1, Torn.differ⟩

end Datalog
