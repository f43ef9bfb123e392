import Datalog.Proofs.Reached

/-!
# Proofs/Feeding — facts that come in batches

A positive program in order closes the facts under all of its clauses at once
(`Facts.stages_within`), so it makes no difference whether some of the facts have been closed before
the others come (`Facts.stages_plus_stages`).  A database that is run after each of several batches
of facts therefore ends up with the facts of one that is run once after all of them
(`Database.Reached.holds_iff_of_fed`).
-/

namespace Datalog

/-- **No clause asks for the absence of anything.** -/
def Clause.Positive (clauses : List Clause) : Prop :=
  ∀ c ∈ clauses, ∀ g, .lookup g ∈ c.body → g.negated = false

/-! ## Closures of positive clauses -/

namespace Facts

variable {fns : Functions} {strata : List (List Clause)} {F G : Facts}
  {facts more : List (Relation × Tuple)}

/-- The facts together with those of a list. -/
def plus (F : Facts) (facts : List (Relation × Tuple)) : Facts := fun r t => F r t ∨ (r, t) ∈ facts

theorem plus_append : (F.plus facts).plus more = F.plus (facts ++ more) := by
  funext r t
  simp [plus, or_assoc]

/-- Without negation, being closed is a matter of the facts alone. -/
theorem closed_iff_of_positive {clauses : List Clause} {absent absent' : Facts}
    (positive : Clause.Positive clauses) :
    F.Closed fns clauses absent ↔ F.Closed fns clauses absent' :=
  closed_congr fun c hc g hg negated => by simp [positive c hc g hg] at negated

/-- **The strata of a positive program** make the least set of facts that is closed under all of
them. -/
theorem stages_within (positive : ∀ clauses ∈ strata, Clause.Positive clauses) (above : F.Within G)
    (closed : ∀ clauses ∈ strata, G.Closed fns clauses G) : (stages fns strata F).Within G := by
  induction strata generalizing F with
  | nil => exact above
  | cons clauses rest ih =>
    rw [List.forall_mem_cons] at positive closed
    refine ih positive.2 (closure_within above ?_) closed.2
    exact (closed_iff_of_positive positive.1).1 closed.1

/-- **It makes no difference** whether some of the facts have been closed before. -/
theorem stages_plus_stages (stratified : Clause.Stratified strata)
    (positive : ∀ clauses ∈ strata, Clause.Positive clauses) :
    stages fns strata ((stages fns strata F).plus facts) = stages fns strata (F.plus facts) := by
  have later : F.Within (F.plus facts) := fun r t => .inl
  have closed : (stages fns strata F).Within (stages fns strata (F.plus facts)) :=
    stages_within positive (later.trans within_stages) (closed_stages stratified)
  have back : (stages fns strata ((stages fns strata F).plus facts)).Within
      (stages fns strata (F.plus facts)) := by
    refine stages_within positive (fun r t ht => ?_) (closed_stages stratified)
    exact ht.elim (closed r t) fun ht => within_stages r t (.inr ht)
  have forth : (stages fns strata (F.plus facts)).Within
      (stages fns strata ((stages fns strata F).plus facts)) := by
    refine stages_within positive (fun r t ht => within_stages r t ?_) (closed_stages stratified)
    exact ht.imp_left (within_stages r t)
  funext r t
  exact propext ⟨back r t, forth r t⟩

end Facts

/-! ## Positive programs -/

/-- **The program is positive and in order**: no rule negates an atom, and none reads what a later
stratum derives. -/
structure Rule.Positive (program : List (List Rule)) : Prop where
  positive : ∀ rules ∈ program, ∀ rule ∈ rules, ∀ a, .atom a ∈ rule.body → a.negated = false
  settled : program.Pairwise fun earlier later => ∀ rule ∈ earlier, ∀ a, .atom a ∈ rule.body →
    a.relation ∉ later.map (·.head.relation)

theorem Rule.Positive.stratified {program : List (List Rule)} (h : Rule.Positive program) :
    Rule.Stratified program where
  static := fun rules hrules rule hrule a ha negated => by
    simp [h.positive rules hrules rule hrule a ha] at negated
  settled := h.settled

/-- Its clauses are positive. -/
theorem Rule.Positive.clauses {program : List (Unification × List Rule)} {strata : List Stratum}
    (h : Rule.Positive (program.map Prod.snd))
    (planned : List.Forall₂ (fun p s => Stratum.Planned p.1 p.2 s) program strata) :
    ∀ clauses ∈ strata.map Stratum.clauses, Clause.Positive clauses := by
  rintro _ hclauses c hc g hg
  obtain ⟨s, hs, rfl⟩ := List.mem_map.1 hclauses
  obtain ⟨p, hp, planned⟩ := Outcome.exists_of_forall₂ planned.flip hs
  obtain ⟨rule, hrule, a, ha, _, negated⟩ := planned.exists_atom hc hg
  exact negated ▸ h.positive p.2 (List.mem_map_of_mem hp) rule hrule a ha

/-! ## Adding facts -/

theorem Store.holds_addAll {s : Store} {facts : List (Relation × Tuple)} :
    (s.addAll facts).Holds = s.Holds.plus facts :=
  funext fun _ => funext fun _ => propext holds_addAll_iff

namespace Database

variable {db db' db'' : Database} {program : List (Unification × List Rule)}
  {facts : List (Relation × Tuple)} {batches : List (List (Relation × Tuple))}

/-- **The facts are added and the database is run**, with whatever settings and on whatever
schedule, and the run ends well. -/
def Feeds (db : Database) (facts : List (Relation × Tuple)) (db' : Database) : Prop :=
  ∃ tuned schedule budget summary, Retuned { db with store := db.store.addAll facts } tuned ∧
    tuned.run schedule budget = some (db', .ok summary)

/-- **One batch of facts after the other is fed**, with a run after each. -/
inductive Fed : Database → List (List (Relation × Tuple)) → Database → Prop
  | last {db db' : Database} {facts} (h : db.Feeds facts db') : Fed db [facts] db'
  | cons {db db₁ db' : Database} {facts batches} (h : db.Feeds facts db₁)
      (rest : Fed db₁ batches db') : Fed db (facts :: batches) db'

namespace Reached

variable (reached : Reached (fun _ => True) db program)
include reached

/-- **One batch**: the strata close the facts together with the batch. -/
theorem holds_of_feeds (order : Rule.Stratified (program.map Prod.snd))
    (arity : ∀ f ∈ facts, f.2.length = f.1.arity) (h : db.Feeds facts db') :
    Reached (fun _ => True) db' program ∧ db.SameProgram db' ∧ db'.store.Holds =
      Facts.stages db.functions (db.strata.map Stratum.clauses) (db.store.Holds.plus facts) := by
  obtain ⟨tuned, schedule, budget, summary, same, ran⟩ := h
  have next := (reached.addAll fun f hf => ⟨arity f hf, fun _ _ => trivial⟩).retuned
    Term.inherited_true same
  have sound := next.sound Term.inherited_true
  have program : db.SameProgram tuned := ⟨same.strata, same.functions, same.next⟩
  refine ⟨next.run ran, program.trans (.of_run ran), ?_⟩
  rw [(holds_of_run sound.fit.built sound.fit.measured (planned_of_static sound.plans order.static) ran).1, program.strata,
    program.functions, same.store, ← Store.holds_addAll]

/-- **All batches**: the strata close the facts together with all that has come. -/
theorem holds_of_fed (positive : Rule.Positive (program.map Prod.snd))
    (arity : ∀ facts ∈ batches, ∀ f ∈ facts, f.2.length = f.1.arity) (fed : Fed db batches db') :
    db'.store.Holds = Facts.stages db.functions (db.strata.map Stratum.clauses)
      (db.store.Holds.plus batches.flatten) := by
  have order := positive.stratified
  induction fed with
  | last h =>
    rw [List.forall_mem_singleton] at arity
    rw [List.flatten_singleton]
    exact (reached.holds_of_feeds order arity h).2.2
  | @cons db db₁ db' facts batches h _ ih =>
    rw [List.forall_mem_cons] at arity
    obtain ⟨reached₁, same, first⟩ := reached.holds_of_feeds order arity.1 h
    have planned := planned_of_static (reached.sound Term.inherited_true).plans order.static
    rw [ih reached₁ arity.2, same.strata, same.functions, first, Facts.stages_plus_stages
      (stratified_of_planned planned order) (positive.clauses planned), Facts.plus_append,
      List.flatten_cons]

/-- **Batches make no difference.**  Take any database that can be reached, with a positive program
in order, and any facts of the right arity.  If they are fed in batches, with a run after each that
ends well, the facts in the end are those after a single run over all of them, if that ends well,
whatever the settings and the schedules of the runs. -/
theorem holds_iff_of_fed (positive : Rule.Positive (program.map Prod.snd))
    (arity : ∀ facts ∈ batches, ∀ f ∈ facts, f.2.length = f.1.arity) (fed : Fed db batches db')
    (once : db.Feeds batches.flatten db'') (r : Relation) (t : Tuple) :
    db'.store.Holds r t ↔ db''.store.Holds r t := by
  have arity' : ∀ f ∈ batches.flatten, f.2.length = f.1.arity := by
    intro f hf
    obtain ⟨facts, hfacts, hf⟩ := List.mem_flatten.1 hf
    exact arity facts hfacts f hf
  rw [reached.holds_of_fed positive arity fed,
    (reached.holds_of_feeds positive.stratified arity' once).2.2]

end Reached

/-- Feeds the facts with the settings that there are, the newest task first. -/
def feed? (db : Database) (facts : List (Relation × Tuple)) : Option Database :=
  match ({ db with store := db.store.addAll facts } : Database).run Policy.newest 20 with
  | some (db', .ok _) => some db'
  | _ => none

theorem feeds_of_feed? (h : db.feed? facts = some db') : db.Feeds facts db' := by
  rw [feed?] at h
  split at h
  · next db₁ summary ran =>
    cases h
    exact ⟨_, _, _, summary, ⟨⟨rfl, rfl, rfl⟩, rfl⟩, ran⟩
  · cases h

theorem fed_of_feed? {more : List (Relation × Tuple)}
    (h : (db.feed? facts).bind (·.feed? more) = some db') : db.Fed [facts, more] db' := by
  obtain ⟨db₁, first, second⟩ := Option.bind_eq_some_iff.1 h
  exact .cons (feeds_of_feed? first) (.last (feeds_of_feed? second))

end Database

/-! ## Examples -/

/-- **It does make a difference** whether the facts come in the two batches or at once: only the
batches lead to the fact. -/
def Database.Unequal (db : Database) (batches : List (List (Relation × Tuple))) (r : Relation)
    (t : Tuple) : Prop :=
  ∃ db' db'' : Database, db.Fed batches db' ∧ db.Feeds batches.flatten db'' ∧
    db'.store.Holds r t ∧ ¬db''.store.Holds r t

theorem Database.unequal_of_feed? {db : Database} {facts more : List (Relation × Tuple)}
    {r : Relation} {t : Tuple}
    (batches : ((db.feed? facts).bind (·.feed? more)).any
      (fun db => db.store.contains r t) = true)
    (once : (db.feed? [facts, more].flatten).any (fun db => !db.store.contains r t) = true) :
    db.Unequal [facts, more] r t := by
  obtain ⟨db', fed, held⟩ := (Option.any_eq_true ..).1 batches
  obtain ⟨db'', once, none⟩ := (Option.any_eq_true ..).1 once
  refine ⟨db', db'', fed_of_feed? fed, feeds_of_feed? once, Store.contains_iff.1 held,
    fun held => ?_⟩
  simp [Store.contains_iff.2 held] at none


namespace Reach

/-- The rules without any facts. -/
def database : Database := (Database.addStratum {} rules).1

theorem reached : Database.Reached (fun _ => True) database [(.assign, rules)] :=
  Database.Reached.new.addStratum below (by cbv)

/-- The chain from 1 to 4 without the edge in the middle. -/
def ends : List (Relation × Tuple) := [(edge, [.int 1, .int 2]), (edge, [.int 3, .int 4])]

/-- The edge that closes the chain. -/
def middle : List (Relation × Tuple) := [(edge, [.int 2, .int 3])]

/-- The chain comes in two batches. -/
theorem exists_batches : ∃ db' db'' : Database, database.Fed [ends, middle] db' ∧
    database.Feeds (ends ++ middle) db'' ∧ db'.store.Holds path [.int 1, .int 4] ∧
      ∀ r t, db'.store.Holds r t ↔ db''.store.Holds r t := by
  have batches : ((database.feed? ends).bind (·.feed? middle)).any
      (fun db => db.store.contains path [.int 1, .int 4]) = true := by cbv
  have once : (database.feed? (ends ++ middle)).isSome = true := by cbv
  obtain ⟨db', fed, held⟩ := (Option.any_eq_true ..).1 batches
  obtain ⟨db'', once⟩ := Option.isSome_iff_exists.1 once
  have fed := Database.fed_of_feed? fed
  have once := Database.feeds_of_feed? once
  refine ⟨db', db'', fed, once, Store.contains_iff.1 held, ?_⟩
  exact Database.Reached.holds_iff_of_fed reached ⟨by simp [rules], by simp⟩ (by decide) fed once

end Reach

namespace Late

/-- Pairs under a key, as they are supplied. -/
def a : Relation := ⟨"a", 3, .extensional⟩

/-- The keys of `p` under a number. -/
def e : Relation := ⟨"e", 2, .extensional⟩

/-- The pairs as the first stratum derives them. -/
def p : Relation := ⟨"p", 3, .bottomUp⟩

/-- The pairs as the second stratum lists them. -/
def q : Relation := ⟨"q", 2, .bottomUp⟩

/-- `p(k, y, x) :- a(k, y, x).` -/
def first : List Rule :=
  let k : Term := .var ⟨"k", 0⟩
  let x : Term := .var ⟨"x", 0⟩
  let y : Term := .var ⟨"y", 0⟩
  [{ head := { relation := p, args := [k, y, x] }
     body := [.atom { relation := a, args := [k, y, x] }] }]

/-- `q(y, x) :- e(0, k), p(k, y, x).` -/
def second : List Rule :=
  let k : Term := .var ⟨"k", 0⟩
  let x : Term := .var ⟨"x", 0⟩
  let y : Term := .var ⟨"y", 0⟩
  [{ head := { relation := q, args := [y, x] }
     body := [.atom { relation := e, args := [.int 0, k] },
      .atom { relation := p, args := [k, y, x] }] }]

/-- The database with both strata and no facts. -/
def database : Database := ((Database.addStratum {} first).1.addStratum second).1

/-- Three keys, and pairs under two of them. -/
def early : List (Relation × Tuple) :=
  [(e, [.int 0, .int 5]), (e, [.int 0, .int 1]), (e, [.int 0, .int 6]),
    (a, [.int 5, .int 1, .int 10]), (a, [.int 6, .int 1, .int 20])]

/-- The last tuple is too short. -/
def late : List (Relation × Tuple) :=
  [(p, [.int 5, .int 0, .int 20]), (p, [.int 6, .int 0, .int 10]), (p, [.int 1, .int 9])]

/-- The goal finds the short tuple and leaves `x` as the tuple before has bound it, and which one
that is depends on whether the derived tuples have come before those that are fed late. -/
theorem unequal : Rule.Positive [first, second] ∧
    Database.Reached (fun _ => True) database [(.assign, first), (.assign, second)] ∧
    database.Unequal [early, late] q [.int 9, .int 20] := by
  have one : Database.Reached (fun _ => True) (Database.addStratum {} first).1 [(.assign, first)] :=
    Database.Reached.new.addStratum (by decide) (by cbv)
  have both : Database.Reached (fun _ => True) database [(.assign, first), (.assign, second)] :=
    one.addStratum (by decide) (by cbv)
  exact ⟨⟨by simp [first, second], by simp [first, second, a, q]⟩, both,
    Database.unequal_of_feed? (by cbv) (by cbv)⟩

end Late

namespace Torn

/-- The torn store with no rules. -/
def unruled : Database := { store }

/-- The rules over the torn store, before there is a fact of `e`. -/
def awaiting : Database := (unruled.addStratum rules).1

theorem awaiting_filled : awaiting.store.Filled ∧ Facts.Measured awaiting.store.Holds := by
  have first : ∀ rule ∈ rules, ∀ v ∈ rule.occurrences, v.number < unruled.next := below
  have prepares := Database.addStratum_prepares first
  have measured : Facts.Measured store.Holds := by
    rintro u t ht
    obtain ⟨rfl, rfl⟩ := holds_iff.1 ht
    rfl
  rw [awaiting]
  exact ⟨prepares.filled filled, prepares.measured measured⟩

/-- In the run that brings `e` its fact, the recursive clause misses a fact of `q`; in a second run
the base clause finds it. -/
theorem unequal : Rule.Positive [rules] ∧
    awaiting.Unequal [[(e, [.int 1])], []] r [.int 1] :=
  ⟨⟨by simp [rules], by simp⟩, Database.unequal_of_feed? (by cbv) (by cbv)⟩

end Torn

/-- **Where batches do matter**: if a tuple is too short for its relation, or an insertion has failed
before, even though every tuple has the right arity. -/
theorem Database.exists_unequal :
    (Rule.Positive [Late.first, Late.second] ∧
      Reached (fun _ => True) Late.database [(.assign, Late.first), (.assign, Late.second)] ∧
      Late.database.Unequal [Late.early, Late.late] Late.q [.int 9, .int 20]) ∧
    (Rule.Positive [Torn.rules] ∧ Torn.awaiting.store.Filled ∧
      Facts.Measured Torn.awaiting.store.Holds ∧
      Torn.awaiting.Unequal [[(Torn.e, [.int 1])], []] Torn.r [.int 1]) :=
  ⟨Late.unequal, Torn.unequal.1, Torn.awaiting_filled.1, Torn.awaiting_filled.2, Torn.unequal.2⟩

end Datalog
