import Datalog.Proofs.Evaluation.Mirrored

/-!
# Proofs/Evaluation/Branches — nothing left over is ever read

A task that overwrites its bindings does what it would do if every branch had bindings of its own,
and so do the tasks that it makes (`Task.run_eq_runOwn`).
-/

namespace Datalog

namespace Work

variable {cx : Context} {task : Task} {failed : Bool}

/-! ## Tasks that go on -/

/-- Where a task goes on makes no difference to how it searches. -/
theorem search_suffix {found : Work Unit} {goal : Goal} {rest slots : List Slot} {b : Bindings}
    {ts : List Tuple} :
    search cx (suffix task goal rest b ts) found slots = search cx task found slots := by
  induction slots with
  | nil => rfl
  | cons slot slots ih =>
    rw [Work.search, Work.search, ih]
    rfl

theorem searchOwn_suffix {found : Work Unit} {goal : Goal} {rest slots : List Slot}
    {b c : Bindings} {ts : List Tuple} :
    searchOwn cx (suffix task goal rest b ts) found slots c = searchOwn cx task found slots c := by
  induction slots generalizing c with
  | nil => rfl
  | cons slot slots ih =>
    rw [Work.searchOwn, Work.searchOwn]
    simp only [ih]
    rfl

end Work

/-! ## Runs -/

/-- The task without the bindings it goes on with. -/
def Task.bare (t : Task) : Task :=
  { t with resumption := t.resumption.map fun r => { r with bindings := ∅ } }

theorem Work.Twin.bare {task u u' : Task} (h : Twin task u u') : u.bare = u'.bare := by
  cases h <;> rfl

/-- **The tasks of a clause**: one that starts it, over a seed that is long enough for what reads
it, and whatever goes on where one of them has left off.  Each is paired with what it is if every
branch has bindings of its own. -/
inductive Task.Stems (cx : Context) (c : PlannedClause) : Task → Task → Prop
  | start {seed : Option (List Tuple)} {generation : Nat}
      (seeded : Work.Seeded { clause := c, seed, generation }) :
      Stems cx c { clause := c, seed, generation } { clause := c, seed, generation }
  | goOn {t t' u u' : Task} {failed : Bool} {world : World} {i : Nat} (stems : Stems cx c t t')
      (long : world.store.Long) (left : (t.run cx failed world).spawned[i]? = some u)
      (right : (t'.runOwn cx failed world).spawned[i]? = some u')
      (suffix : u.resumption.isSome = true) : Stems cx c u u'

/-- **The outcomes agree**, and there is no fault for want of a binding. -/
structure Task.Agreed (t : Task) (o o' : Outcome Task World) : Prop where
  world : o.world = o'.world
  result : o.result = o'.result
  spawned : List.Forall₂ (Work.Twin t) o.spawned o'.spawned
  bound : ∀ fault, o.fault? = some fault → ∀ name, fault.root ≠ .unboundVariable name

namespace Task

variable {cx : Context} {t u u' : Task} {failed : Bool} {world : World}

/-- Work that is alike makes outcomes that agree. -/
theorem agreed_of_alike {R : Unit → Worker → Worker → Prop} (clause : u'.clause = u.clause)
    (h : Work.Alike t R
      (u.work cx failed { world, bindings := (u.resumption.map (·.bindings)).getD ∅ })
      (u'.workOwn cx failed { world, bindings := ∅ })) :
    Agreed t (u.run cx failed world) (u'.runOwn cx failed world) := by
  rw [Task.run, Task.runOwn, clause]
  generalize u.work cx failed _ = result, u'.workOwn cx failed _ = result' at h ⊢
  cases h with
  | ok mirrors _ => exact ⟨mirrors.world, rfl, mirrors.spawned, nofun⟩
  | error mirrors bound =>
    refine ⟨mirrors.world, rfl, mirrors.spawned, fun fault hfault => ?_⟩
    cases hfault
    exact bound.within fun f => rfl

/-- **A task of the clause, paired with its twin**, either starts or goes on. -/
def Paired (t u u' : Task) : Prop :=
  t.resumption = none ∧ Work.Seeded t ∧
    ((u = t ∧ u' = t) ∨ (u.resumption.isSome = true ∧ Work.Twin t u u'))

theorem Paired.agreed (orderly : t.clause.clause.Orderly) (careful : cx.functions.Bound)
    (paired : Paired t u u') (long : world.store.Long) :
    Agreed t (u.run cx failed world) (u'.runOwn cx failed world) := by
  obtain ⟨hnone, seeded, ⟨rfl, rfl⟩ | ⟨hsome, twin⟩⟩ := paired
  · refine agreed_of_alike (R := fun _ _ _ => True) rfl ?_
    rw [Task.work, Task.workOwn, hnone]
    have body : u'.clause.body = [] ++ u'.clause.body := rfl
    exact Work.approach_alike orderly careful seeded body ⟨rfl, rfl, .nil⟩ long
      (fun v hv => absurd hv List.not_mem_nil) fun v hv => absurd hv List.not_mem_nil
  · cases twin with
    | start h =>
      rw [h] at hsome
      cases hsome
    | @goOn pre rest slot goal tuples b b' body positive agree defined hlong =>
      refine agreed_of_alike (R := fun _ _ _ => True) rfl ?_
      have mirrors : Work.Mirrors t { world, bindings := b } { world, bindings := ∅ } :=
        ⟨rfl, rfl, .nil⟩
      have alike : Work.Alike t (fun _ _ _ => True)
          (Work.resume cx t failed goal rest tuples { world, bindings := b })
          (Work.resumeOwn cx t failed goal rest tuples b' { world, bindings := ∅ }) :=
        Work.resume_alike orderly careful seeded body positive hlong mirrors long agree defined
      change Work.Alike t _
        (Work.settle cx t failed (tuples.forM fun tuple => do
          Work.take cx goal tuple
          Work.search cx (Work.suffix t goal rest b tuples) (Work.conclude cx t failed) rest) _)
        (Work.settle cx t failed (tuples.forM fun tuple => do
          Work.hold b'
          Work.take cx goal tuple
          Work.searchOwn cx (Work.suffix t goal rest b' tuples) (Work.conclude cx t failed) rest
            (goal.bind tuple b')) _)
      simp only [Work.search_suffix, Work.searchOwn_suffix]
      exact alike

theorem Stems.paired {c : PlannedClause} (orderly : c.clause.Orderly) (careful : cx.functions.Bound)
    (stems : u.Stems cx c u') : ∃ t, t.clause = c ∧ Paired t u u' := by
  induction stems with
  | start seeded => exact ⟨_, rfl, rfl, seeded, .inl ⟨rfl, rfl⟩⟩
  | @goOn u u' v v' failed world i _ long left right suffix ih =>
    obtain ⟨t, rfl, paired⟩ := ih
    have agreed : Agreed t (u.run cx failed world) (u'.runOwn cx failed world) :=
      paired.agreed orderly careful long
    have twin := (Outcome.forall₂_iff_getElem?.1 agreed.spawned).2 i v v' left right
    exact ⟨t, rfl, paired.1, paired.2.1, .inr ⟨suffix, twin⟩⟩

/-- **Nothing is read but what the branch has bound.**  Every task of a clause that compilation
yields, run over a store and a seed without tuples that are too short, does what it would do if
each branch had bindings of its own, and has no fault for want of a binding.  The tasks it makes
are the same as well, but for the bindings they take along, and these make no difference to them
in turn. -/
theorem run_eq_runOwn {rule : Rule} {mode : Unification} {delta : Option Nat} {next next' : Nat}
    {c : PlannedClause} (below : ∀ v ∈ rule.occurrences, v.number < next)
    (ok : rule.compile mode delta next = .ok c.clause next') (careful : cx.functions.Bound)
    (stems : u.Stems cx c u') (failed : Bool) (long : world.store.Long) :
    (u.run cx failed world).world = (u'.runOwn cx failed world).world ∧
      (u.run cx failed world).result = (u'.runOwn cx failed world).result ∧
      (u.run cx failed world).spawned.map bare = (u'.runOwn cx failed world).spawned.map bare ∧
      ∀ fault, (u.run cx failed world).fault? = some fault →
        ∀ name, fault.root ≠ .unboundVariable name := by
  have orderly := Rule.orderly_of_compile below ok
  obtain ⟨t, rfl, paired⟩ := stems.paired orderly careful
  have agreed : Agreed t (u.run cx failed world) (u'.runOwn cx failed world) :=
    paired.agreed orderly careful long
  refine ⟨agreed.world, agreed.result, ?_, agreed.bound⟩
  refine List.forall₂_eq_eq_eq ▸ List.forall₂_map_left_iff.2 (List.forall₂_map_right_iff.2 ?_)
  exact agreed.spawned.imp fun _ _ h => h.bare

end Task

/-! ## An example -/

namespace Hops

/-- The edges. -/
def p : Relation := ⟨"p", 2, .extensional⟩

/-- `q(x) :- p(y, x), p(x, z).` -/
def rule : Rule :=
  let x : Term := .var ⟨"x", 0⟩
  { head := { relation := ⟨"q", 1, .bottomUp⟩, args := [x] }
    body := [.atom { relation := p, args := [.var ⟨"y", 0⟩, x] },
      .atom { relation := p, args := [x, .var ⟨"z", 0⟩] }] }

/-- What the rule compiles to, without indices. -/
def clause : PlannedClause :=
  match rule.compile .assign none 1 with
  | .ok c _ => ⟨c.head, c.body.map fun step => { step }⟩
  | .error .. => default

/-- A task takes one tuple at a time. -/
def context : Context where
  functions := ∅
  settings := { taskSize := 1 }
  stratum := {}
  tracked := []

/-- The task that starts the clause. -/
def first : Task := { clause, seed := none, generation := 0 }

/-- The world with these facts of `p` and no others. -/
def world (facts : List Tuple) : World where
  store := facts.foldl (fun s t => (s.add p t).1) ∅

/-- A chain of three. -/
def chain : World := world [[.int 1, .int 2], [.int 2, .int 3], [.int 3, .int 4]]

theorem long : chain.store.Long := by
  have none : Store.Long ∅ := ⟨.empty, nofun⟩
  have one : (Store.add ∅ p [.int 1, .int 2]).1.Long := none.add (Nat.le_refl _)
  have two : ((Store.add ∅ p [.int 1, .int 2]).1.add p [.int 2, .int 3]).1.Long :=
    one.add (Nat.le_refl _)
  exact two.add (Nat.le_refl _)

/-- A task that goes on from the second tuple does what it would do with bindings of its own. -/
theorem goOn_eq_goOnOwn : ∃ t t', (first.run context false chain).spawned[0]? = some t ∧
    t.resumption.isSome = true ∧ (first.runOwn context false chain).spawned[0]? = some t' ∧
    (t.run context false chain).world = (t'.runOwn context false chain).world ∧
    (t.run context false chain).result = (t'.runOwn context false chain).result ∧
    (t.run context false chain).spawned.map Task.bare =
      (t'.runOwn context false chain).spawned.map Task.bare ∧
    ∀ fault, (t.run context false chain).fault? = some fault →
      ∀ name, fault.root ≠ .unboundVariable name := by
  obtain ⟨next, ok⟩ : ∃ n, rule.compile .assign none 1 = .ok clause.clause n := ⟨_, rfl⟩
  obtain ⟨t, ht, suffix⟩ : ∃ t, (first.run context false chain).spawned[0]? = some t ∧
      t.resumption.isSome = true := ⟨_, rfl, rfl⟩
  obtain ⟨t', ht'⟩ : ∃ t, (first.runOwn context false chain).spawned[0]? = some t := ⟨_, rfl⟩
  have seeded : Work.Seeded first := fun _ h => by cases h
  have stems : t.Stems context clause t' := .goOn (.start seeded) long ht ht' suffix
  have careful : context.functions.Bound := nofun
  exact ⟨t, t', ht, suffix, ht', Task.run_eq_runOwn (by decide) ok careful stems false long⟩

/-- **A tuple that is too short leaves a variable without a binding.**  The goal finds it, since a
key asks nothing of the positions that a tuple does not have. -/
theorem unbound_of_short : ∃ next, rule.compile .assign none 1 = .ok clause.clause next ∧
    (world [[.int 1]]).store.Built ∧
    (first.run context false (world [[.int 1]])).fault?.map Fault.root =
      some (.unboundVariable "x") :=
  ⟨_, rfl, Store.Built.empty.add nofun, rfl⟩

end Hops

end Datalog
