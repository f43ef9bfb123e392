import Datalog.Proofs.Database
import Datalog.Proofs.Reading
import Datalog.Proofs.Renumbering.Evaluation
import Datalog.Proofs.Renumbering.Plan

/-!
# Proofs/Session — a rejected stratum leaves nothing behind that counts

Planning that a rule puts an end to has registered indices and taken numbers for variables by then,
and these are not given back.  Nobody can tell: the database reads as before, and goes through every
session as it would have done, with the same facts in the end and the same answers on the way, up
to the numbering of invented variables (`Database.rejected_unnoticed`).
-/

namespace Datalog

open Outcome (Pair)

variable {k : Relation → Nat} {n m : Nat}

/-! ## Running -/

namespace Database

/-- **Databases that correspond**: later indices, and a counter that is later by `m`, are all that
tells them apart. -/
structure Like (k : Relation → Nat) (n m : Nat) (db db' : Database) : Prop where
  plan : PlanState.Like k n m ⟨db.store, db.next⟩ ⟨db'.store, db'.next⟩
  strata : List.Forall₂ (Stratum.Like k n) db.strata db'.strata
  functions : db'.functions = db.functions
  settings : db'.settings = db.settings
  tracked : db'.tracked = db.tracked
  listing : db'.listing = db.listing
  listener : db'.listener = db.listener
  counters : db'.counters = db.counters

/-- Databases that correspond, and results that do. -/
def Ends {α : Type} (k : Relation → Nat) (n m : Nat) (x y : Database × Except RunError α) : Prop :=
  x.1.Like k n m y.1 ∧
    Pair (fun e e' => e'.stratum = e.stratum ∧ e.fault.Like n e'.fault) Eq x.2 y.2

namespace Like

variable {db db' : Database}

theorem evaluation (h : db.Like k n m db') {s s' : Stratum} (hs : s.Like k n s') :
    (db.evaluation s).Like k n (db'.evaluation s') :=
  ⟨⟨h.functions, h.settings, hs, h.tracked, h.listing⟩, ⟨h.plan.store, rfl, h.counters, rfl⟩⟩

theorem absorb (h : db.Like k n m db') {w w' : World} (hw : w.Like k w') :
    (db.absorb w).Like k n m (db'.absorb w') where
  plan := ⟨hw.store, h.plan.next, h.plan.least⟩
  strata := h.strata
  functions := h.functions
  settings := h.settings
  tracked := h.tracked
  listing := h.listing
  listener := congrArg₂ Listener.hear hw.echoed h.listener
  counters := hw.counters

/-- **Stratum after stratum.** -/
theorem runStrata (h : db.Like k n m db') (order : Order) (budget number : Nat)
    {strata strata' : List Stratum} (hs : List.Forall₂ (Stratum.Like k n) strata strata') :
    Option.Rel (Ends k n m) (db.runStrata order.schedule budget number strata)
      (db'.runStrata order.schedule budget number strata') := by
  induction hs generalizing db db' number with
  | nil => exact .some ⟨h, .ok rfl⟩
  | cons hs _ ih =>
    rw [Database.runStrata, Database.runStrata]
    refine Outcome.rel_bind ((h.evaluation hs).run order budget) ?_
    rintro ⟨e, result⟩ ⟨e', result'⟩ ⟨he, results⟩
    cases results with
    | ok => exact ih (h.absorb he.world) (number + 1)
    | error hf => exact .some ⟨h.absorb he.world, .error ⟨rfl, hf⟩⟩

theorem run (h : db.Like k n m db') (order : Order) (budget : Nat) :
    Option.Rel (Ends k n m) (db.run order.schedule budget) (db'.run order.schedule budget) := by
  rw [Database.run, Database.run]
  refine Outcome.rel_bind (h.runStrata order budget 0 h.strata) ?_
  rintro ⟨u, result⟩ ⟨u', result'⟩ ⟨hu, results⟩
  cases results with
  | ok => exact .some ⟨hu, .ok (by rw [hu.counters, h.counters])⟩
  | error he => exact .some ⟨hu, .error he⟩

theorem withListing (h : db.Like k n m db') (listing : Listing) :
    { db with listing }.Like k n m { db' with listing } :=
  ⟨h.plan, h.strata, h.functions, h.settings, h.tracked, rfl, h.listener, h.counters⟩

/-! ## Filling -/

theorem addFact (h : db.Like k n m db') (a : Atom) :
    Pair Eq (fun x y => x.1.Like k n m y.1 ∧ x.2 = y.2) (db.addFact a) (db'.addFact a) := by
  rw [Database.addFact, Database.addFact]
  split
  · exact .error rfl
  · next arity =>
    split
    · exact .error rfl
    · obtain ⟨store, same⟩ := h.plan.store.add (not_not.1 arity)
      exact .ok ⟨⟨⟨store, h.plan.next, h.plan.least⟩, h.strata, h.functions, h.settings,
        h.tracked, h.listing, h.listener, h.counters⟩, same.symm⟩

theorem addStratum (h : db.Like k n m db') {rules : List Rule}
    (below : ∀ rule ∈ rules, ∀ v ∈ rule.occurrences, v.number < n) :
    (db.addStratum rules).1.Like k n m (db'.addStratum rules).1 ∧
      Pair (PlanError.RenamedBy (Var.shift n m)) Eq (db.addStratum rules).2
        (db'.addStratum rules).2 := by
  have plan : Outcome.Alike _ _ _
      (Stratum.plan db.settings.unification db.functions rules ⟨db.store, db.next⟩)
      (Stratum.plan db.settings.unification db.functions rules ⟨db'.store, db'.next⟩) :=
    Stratum.plan_like below _ _ h.plan
  rw [Database.addStratum, Database.addStratum, h.settings, h.functions]
  generalize Stratum.plan _ _ rules ⟨db.store, db.next⟩ = x,
    Stratum.plan _ _ rules ⟨db'.store, db'.next⟩ = y at plan
  cases plan with
  | ok hst hs =>
    exact ⟨⟨hst, List.rel_append h.strata (.cons hs .nil), rfl, rfl, h.tracked, h.listing,
      h.listener, h.counters⟩, .ok h.strata.length_eq⟩
  | error hst he =>
    exact ⟨⟨hst, h.strata, rfl, rfl, h.tracked, h.listing, h.listener, h.counters⟩, .error he⟩

/-! ## Sessions -/

/-- **One operation.** -/
theorem perform (h : db.Like k n m db') {op : Operation} (below : op.Below n) :
    Option.Rel (fun x y => x.1.Like k n m y.1 ∧ x.2.Like n y.2) (db.perform op)
      (db'.perform op) := by
  cases op with
  | fact a =>
    have both := h.addFact a
    rw [Database.perform, Database.perform]
    generalize db.addFact a = x, db'.addFact a = y at both
    cases both with
    | ok both =>
      obtain ⟨hu, same⟩ := both
      exact .some ⟨hu, same ▸ .fact _⟩
    | error same => exact .some ⟨h, same ▸ .fact _⟩
  | stratum rules =>
    obtain ⟨hu, results⟩ := h.addStratum below
    rw [Database.perform, Database.perform]
    refine .some ⟨hu, ?_⟩
    dsimp only
    generalize (db.addStratum rules).2 = x, (db'.addStratum rules).2 = y at results
    cases results with
    | ok same => exact same ▸ .planned _
    | error he =>
      cases he with
      | rejected e => exact .rejected e (.shift n m)
      | misfit misfit => exact .misfit misfit
  | run order listing budget =>
    have both := (h.withListing listing).run order budget
    rw [Database.perform, Database.perform]
    generalize { db with listing }.run order.schedule budget = x,
      { db' with listing }.run order.schedule budget = y at both
    cases both with
    | none => exact .none
    | @some x y both =>
      obtain ⟨u, result⟩ := x
      obtain ⟨u', result'⟩ := y
      obtain ⟨hu, results⟩ := both
      refine .some ⟨hu, ?_⟩
      cases results with
      | ok same => exact same ▸ .finished _
      | @error e e' he =>
        obtain ⟨number, f⟩ := e
        obtain ⟨_, f'⟩ := e'
        obtain ⟨rfl, hf⟩ := he
        exact .failed hf

/-- **A whole session.** -/
theorem performAll (h : db.Like k n m db') {ops : List Operation}
    (below : ∀ op ∈ ops, op.Below n) :
    Option.Rel (fun x y => x.1.Like k n m y.1 ∧ List.Forall₂ (Answer.Like n) x.2 y.2)
      (db.performAll ops) (db'.performAll ops) := by
  induction ops generalizing db db' with
  | nil => exact .some ⟨h, .nil⟩
  | cons op ops ih =>
    rw [Database.performAll, Database.performAll]
    refine Outcome.rel_bind (h.perform (below op (List.mem_cons_self ..))) ?_
    rintro ⟨u, answer⟩ ⟨u', answer'⟩ ⟨hu, hanswer⟩
    refine Outcome.rel_bind (ih hu fun op hop => below op (List.mem_cons_of_mem _ hop)) ?_
    rintro ⟨v, answers⟩ ⟨v', answers'⟩ ⟨hv, hanswers⟩
    exact .some ⟨hv, .cons hanswer hanswers⟩

end Like

end Database

/-! ## Rejection -/

/-- **Every clause concludes facts of the right arity.** -/
def Stratum.Headed (s : Stratum) : Prop :=
  ∀ c, s.Has c → c.head.args.length = c.head.relation.arity

/-- So does every clause of a stratum that was planned. -/
theorem Stratum.PlannedFrom.headed {mode : Unification} {rules : List Rule} {s : Stratum}
    (h : s.PlannedFrom mode rules) : s.Headed :=
  fun _ hc => (h.linked.orderly hc).arity

/-- A stratum corresponds to itself. -/
theorem Stratum.Headed.like {s : Stratum} (h : s.Headed) : s.Like k n s := by
  refine ⟨List.forall₂_same.2 fun c hc => .refl (h c (.inl hc)), List.forall₂_same.2 ?_⟩
  rintro ⟨r, clauses⟩ hr
  refine ⟨rfl, List.forall₂_same.2 fun c hc => .refl (h c (.inr ⟨r, ?_⟩))⟩
  rw [firedBy, Assoc.get?_eq_some_iff.2 hr]
  exact hc

/-- **Nothing tells the stores apart**: all that reads them has the same answer.  A lookup finds the
same tuples, equally often, whatever its key and whichever index it names; and if either store lists
them in the same order, it finds the same list. -/
structure Store.Indiscernible (s s' : Store) : Prop where
  reads : s.ReadsAlike s'
  lookups : ∀ (l l' : Listing) r key n, (l'.lookup s' r key n).Perm (l.lookup s r key n)
  listed : ∀ (l : Listing) r key n, l.lookup s' r key n = l.lookup s r key n
  hits : ∀ r key n, s'.hasMatch r key n = s.hasMatch r key n

theorem Store.Like.indiscernible {s s' : Store} (h : s.Like k s') : s.Indiscernible s' where
  reads := .of_perm fun r => .of_eq (h.tuples_eq r).symm
  lookups l l' r key n := by
    rw [h.listed_eq rfl]
    exact (l'.lookup_perm ..).trans (l.lookup_perm ..).symm
  listed l _ key _ := h.listed_eq rfl l key
  hits _ key _ := h.hasMatch_eq rfl key

namespace Database

variable {db db' : Database} {rules : List Rule} {e : PlanError}

/-- **What a rejected stratum leaves** corresponds to what was there. -/
theorem like_of_rejected (shaped : db.store.Shaped) (headed : ∀ s ∈ db.strata, s.Headed)
    (below : ∀ rule ∈ rules, ∀ v ∈ rule.occurrences, v.number < db.next)
    (rejected : db.addStratum rules = (db', .error e)) :
    ∃ m, db.Like db.store.indexCount db.next m db' := by
  have prepares := addStratum_prepares below
  rw [rejected] at prepares
  obtain ⟨m, later⟩ := Nat.exists_eq_add_of_le prepares.next
  rw [addStratum] at rejected
  split at rejected
  · cases rejected
  · cases rejected
    exact ⟨m, ⟨⟨prepares.further.like, shaped, prepares.shaped shaped⟩, later, Nat.le_refl _⟩,
      List.forall₂_same.2 fun s hs => (headed s hs).like, rfl, rfl, rfl, rfl, rfl, rfl⟩

/-- **A rejected stratum goes unnoticed.**  Whichever of its rules is refused, the strata are those
of before, and nothing tells the store from what it was.  If all indices are on positions that their
relations have, nothing does after any session either, with the same lines echoed and with answers
that are the same up to the numbers of the variables invented from here on; and a budget is too
small for both sessions, or for neither.  Every run of the session comes with an order of its tasks
and an order in which tuples are listed, which may be any, and is given the same ones either way. -/
theorem rejected_unnoticed
    (below : ∀ rule ∈ rules, ∀ v ∈ rule.occurrences, v.number < db.next)
    (rejected : db.addStratum rules = (db', .error e)) :
    db'.strata = db.strata ∧ db.store.Indiscernible db'.store ∧
      (db.store.Shaped → (∀ s ∈ db.strata, s.Headed) →
        ∀ ops : List Operation, (∀ op ∈ ops, op.Below db.next) →
          Option.Rel (fun x y => x.1.store.Indiscernible y.1.store ∧
              y.1.listener = x.1.listener ∧ List.Forall₂ (Answer.Like db.next) x.2 y.2)
            (db.performAll ops) (db'.performAll ops)) := by
  have prepares := addStratum_prepares below
  rw [rejected] at prepares
  refine ⟨addStratum_error rejected, prepares.further.like.indiscernible,
    fun shaped headed ops hops => ?_⟩
  obtain ⟨m, like⟩ := like_of_rejected shaped headed below rejected
  have both := like.performAll hops
  generalize db.performAll ops = x, db'.performAll ops = y at both
  cases both with
  | none => exact .none
  | some both => exact .some ⟨both.1.plan.store.like.indiscernible, both.1.listener, both.2⟩

end Database

/-! ## Examples -/

namespace Leftover

/-- The relation that both rules read. -/
def e : Relation := ⟨"e", 1, .extensional⟩

/-- The relation of the first rule. -/
def q : Relation := ⟨"q", 1, .bottomUp⟩

/-- The relation of the second rule. -/
def r : Relation := ⟨"r", 1, .bottomUp⟩

/-- The variable `x`. -/
def x : Term := .var ⟨"x", 0⟩

/-- `q(x) :- e(x).` -/
def first : Rule := ⟨{ relation := q, args := [x] }, [.atom { relation := e, args := [x] }]⟩

/-- `r(x) :- e(c(x)), q(x).` -/
def second : Rule := ⟨{ relation := r, args := [x] },
  [.atom { relation := e, args := [.ctor "c" [x]] }, .atom { relation := q, args := [x] }]⟩

/-- `r(y) :- e(x).` -/
def unbound : Rule := ⟨{ relation := r, args := [.var ⟨"y", 0⟩] },
  [.atom { relation := e, args := [x] }]⟩

/-- The database with the first rule. -/
def database : Database := (Database.addStratum {} [first]).1

theorem headed : ∀ s ∈ database.strata, s.Headed := by
  have ok : Database.addStratum {} [first] = (database, .ok 0) := Prod.ext rfl (by cbv)
  obtain ⟨s, planned, strata⟩ := Database.addStratum_ok (by decide) ok
  intro s' hs
  obtain rfl := List.mem_singleton.1 (strata ▸ hs)
  exact planned.headed

theorem shaped : database.store.Shaped := by
  have below : ∀ rule ∈ [first], ∀ v ∈ rule.occurrences, v.number < ({} : Database).next := by decide
  exact (Database.addStratum_prepares below).shaped Store.shaped_empty

/-- A run between two facts and a rule that come later. -/
def session (order : Order) (listing : Listing) (budget : Nat) : List Operation :=
  [.fact { relation := e, args := [.int 1] }, .run order listing budget, .stratum [second],
    .fact { relation := e, args := [.ctor "c" [.int 1]] }, .run order listing budget]

/-- The second rule invents a variable and gets an index before the third rule is refused. -/
theorem unnoticed : ∃ db' err, database.addStratum [second, unbound] = (db', .error err) ∧
    database.next < db'.next ∧ database.store.indexCount q < db'.store.indexCount q ∧
    db'.strata = database.strata ∧ database.store.Indiscernible db'.store ∧
    ∀ order listing budget, Option.Rel (fun x y =>
        x.1.store.Indiscernible y.1.store ∧ y.1.listener = x.1.listener ∧
          List.Forall₂ (Answer.Like database.next) x.2 y.2)
      (database.performAll (session order listing budget))
      (db'.performAll (session order listing budget)) := by
  have below : ∀ rule ∈ [second, unbound], ∀ v ∈ rule.occurrences, v.number < database.next := by
    decide +kernel
  have later : database.next < (database.addStratum [second, unbound]).1.next ∧
      database.store.indexCount q <
        (database.addStratum [second, unbound]).1.store.indexCount q := by decide +kernel
  have refused : (database.addStratum [second, unbound]).2.toBool = false := by decide +kernel
  cases rejected : database.addStratum [second, unbound] with
  | mk db' answer =>
    rw [rejected] at later refused
    cases answer with
    | ok number => cases refused
    | error err =>
      obtain ⟨strata, reads, sessions⟩ :=
        Database.rejected_unnoticed below rejected
      refine ⟨db', err, rfl, later.1, later.2, strata, reads, fun order listing budget =>
        sessions shaped headed _ ?_⟩
      simpa [session, Operation.Below] using below second (List.mem_cons_self ..)

end Leftover

/-- The operation with another order in which its tuples are listed. -/
def Operation.listed (listing : Listing) : Operation → Operation
  | .run order _ budget => .run order listing budget
  | op => op

/-- The two sessions leave the same facts, if a budget is not too small for both of them. -/
def Database.SameFacts (db db' : Database) (ops ops' : List Operation) : Prop :=
  Option.Rel (fun x y => ∀ r, y.1.store.facts r = x.1.store.facts r) (db.performAll ops)
    (db'.performAll ops')

/-- Sessions with other facts of the relation. -/
theorem Database.not_sameFacts {db db' : Database} {ops ops' : List Operation} {r : Relation}
    {tuples tuples' : List Tuple}
    (one : (db.performAll ops).any (fun z => z.1.store.facts r = tuples) = true)
    (other : (db'.performAll ops').any (fun z => z.1.store.facts r = tuples') = true)
    (differ : tuples' ≠ tuples) : ¬db.SameFacts db' ops ops' := by
  intro same
  rw [Database.SameFacts] at same
  generalize db.performAll ops = x, db'.performAll ops' = y at same one other
  cases same with
  | none => cases one
  | some same => exact differ ((of_decide_eq_true other).symm.trans
      ((same r).trans (of_decide_eq_true one)))

namespace Misplaced

open Leftover

/-- What `s` is derived from. -/
def f : Relation := ⟨"f", 1, .extensional⟩

/-- The relation that is derived later on. -/
def s : Relation := ⟨"s", 1, .bottomUp⟩

/-- The database with an index of `q` on a position that it does not have, and a fact. -/
def database : Database :=
  match (Leftover.database.store.add e [.int 1]).1.register q [3] with
  | .ok (store, _) => { Leftover.database with store }
  | .error _ => Leftover.database

/-- `s(x) :- f(x), q(x).` -/
def third : Rule := ⟨{ relation := s, args := [x] },
  [.atom { relation := f, args := [x] }, .atom { relation := q, args := [x] }]⟩

/-- A run that ends in a panic, and another one after a fact and a rule have been added. -/
def session : List Operation :=
  [.run (fun _ _ => 0) .asTheyCome 10, .fact { relation := f, args := [.int 1] },
    .stratum [third], .run (fun _ _ => 0) .asTheyCome 10]

theorem headed : ∀ s ∈ database.strata, s.Headed := by
  have strata : database.strata = Leftover.database.strata := by
    rw [database]
    split <;> rfl
  exact strata ▸ Leftover.headed

theorem exists_rejected : ∃ db' err, database.addStratum [third, unbound] = (db', .error err) ∧
    ¬database.SameFacts db' session session := by
  have refused : (database.addStratum [third, unbound]).2.toBool = false := by decide +kernel
  have without : (database.performAll session).any
      (fun z => z.1.store.facts s = [[.int 1]]) = true := by decide +kernel
  have after : ((database.addStratum [third, unbound]).1.performAll session).any
      (fun z => z.1.store.facts s = []) = true := by decide +kernel
  cases rejected : database.addStratum [third, unbound] with
  | mk db' answer =>
    rw [rejected] at refused after
    cases answer with
    | ok number => cases refused
    | error err => exact ⟨db', err, rfl, Database.not_sameFacts without after nofun⟩

end Misplaced

namespace Relisted

open Leftover (x unbound)

/-- The keys. -/
def f : Relation := ⟨"f", 1, .extensional⟩

/-- A relation of two arguments, of which the second should be a number. -/
def p : Relation := ⟨"p", 2, .extensional⟩

/-- The sums. -/
def r : Relation := ⟨"r", 1, .bottomUp⟩

/-- The variable `y`. -/
def y : Term := .var ⟨"y", 0⟩

/-- The variable `z`. -/
def z : Term := .var ⟨"z", 0⟩

/-- `r(z) :- f(y), p(y, x), z = add(x, 1).` -/
def sum : Rule := ⟨{ relation := r, args := [z] },
  [.atom { relation := f, args := [y] }, .atom { relation := p, args := [y, x] },
    .unify z (.call "add" [x, .int 1]) false]⟩

/-- A run over a number and a string, to which nothing can be added. -/
def session : List Operation :=
  [.fact { relation := f, args := [.int 1] }, .fact { relation := p, args := [.int 1, .int 5] },
    .fact { relation := p, args := [.int 1, .str "a"] }, .stratum [sum],
    .run (fun _ _ => 0) .asTheyCome 10]

theorem exists_rejected : ∃ db' err,
    Database.addStratum {} [sum, unbound] = (db', .error err) ∧
      ¬Database.SameFacts {} db' session (session.map (·.listed .backwards)) := by
  have refused : (Database.addStratum {} [sum, unbound]).2.toBool = false := by decide +kernel
  have forwards : (Database.performAll {} session).any
      (fun z => z.1.store.facts r = [[.int 6]]) = true := by decide +kernel
  have backwards : ((Database.addStratum {} [sum, unbound]).1.performAll
      (session.map (·.listed .backwards))).any (fun z => z.1.store.facts r = []) = true := by
    decide +kernel
  cases rejected : Database.addStratum {} [sum, unbound] with
  | mk db' answer =>
    rw [rejected] at refused backwards
    cases answer with
    | ok number => cases refused
    | error err => exact ⟨db', err, rfl, Database.not_sameFacts forwards backwards nofun⟩

end Relisted

/-- **Where a rejected stratum can be noticed.**  If an index is on a position that its relation
lacks, a run stores a fact and panics at that index, so the fact is missing from the later index
that the rejected stratum has left, and a later run does not find it.  And a run that fails has
stored what it came to before the fault, which depends on the order in which a lookup lists its
tuples, through that index or without it. -/
theorem Misplaced.noticed :
    (¬∀ (db db' : Database) (rules : List Rule) (e : PlanError) (ops : List Operation),
      (∀ s ∈ db.strata, s.Headed) → (∀ rule ∈ rules, ∀ v ∈ rule.occurrences, v.number < db.next) →
        db.addStratum rules = (db', .error e) → (∀ op ∈ ops, op.Below db.next) →
          db.SameFacts db' ops ops) ∧
    ¬∀ (db db' : Database) (rules : List Rule) (e : PlanError) (ops : List Operation)
        (listing : Listing),
      db.store.Shaped → (∀ s ∈ db.strata, s.Headed) →
        (∀ rule ∈ rules, ∀ v ∈ rule.occurrences, v.number < db.next) →
          db.addStratum rules = (db', .error e) → (∀ op ∈ ops, op.Below db.next) →
            db.SameFacts db' ops (ops.map (·.listed listing)) := by
  constructor
  · intro claimed
    have below : ∀ rule ∈ [third, Leftover.unbound], ∀ v ∈ rule.occurrences,
        v.number < database.next := by decide +kernel
    obtain ⟨db', err, rejected, differ⟩ := exists_rejected
    refine differ (claimed database db' _ err session headed below rejected ?_)
    simpa [session, Operation.Below] using below third (List.mem_cons_self ..)
  · intro claimed
    have below : ∀ rule ∈ [Relisted.sum, Leftover.unbound], ∀ v ∈ rule.occurrences,
        v.number < ({} : Database).next := by decide
    obtain ⟨db', err, rejected, differ⟩ := Relisted.exists_rejected
    refine differ (claimed {} db' _ err Relisted.session .backwards Store.shaped_empty nofun below
      rejected ?_)
    simpa [Relisted.session, Operation.Below] using below Relisted.sum (List.mem_cons_self ..)

end Datalog
