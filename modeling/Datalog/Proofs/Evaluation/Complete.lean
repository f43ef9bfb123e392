import Datalog.Proofs.Evaluation.Growth
import Datalog.Proofs.Evaluation.Unbroken
import Datalog.Proofs.Evaluation.Visits
import Datalog.Proofs.Evaluation.Walk
import Datalog.Proofs.Filling

/-!
# Proofs/Evaluation/Complete — a line of tasks reports the complete matches

What the tasks of a line report is what they no longer owe (`Agenda.OnLine.drain`), and each task
has less left to do than the one that it goes on from.  So a line comes to an end, and then it has
reported what nested loops find, each match as often as they find it (`Task.reports_complete`).
-/

namespace Datalog

/-! ## One task -/

namespace Task

variable {cx : Context} {start : Store} {task t : Task} {failed : Bool} {world : World} {y : Yield}

/-- **A task of the line** yields what it is worth. -/
theorem Worth.exists_yields (suits : task.Suits start) (worth : task.Worth cx start t y)
    (serves : start.Serves task world.store) (failed : Bool) :
    ∃ w, Work.Yields cx start task [] (t.work cx failed) (fun _ => t.reports cx failed world) y
      (t.worker world) w := by
  cases worth with
  | start first fine =>
    have bare : task.worker world = { world, bindings := ∅ } := by
      rw [worker, first]
      rfl
    have body : task.clause.body = [] ++ task.clause.body := rfl
    rw [work, reports, first, bare]
    obtain ⟨w, yields⟩ := Work.exists_yields_approach (w := { world, bindings := ∅ }) failed suits
      body serves .nil fine
    exact ⟨w, { yields with pays := yields.pays }⟩
  | @goOn pre rest slot goal b held tuples body positive branch fine =>
    rw [Work.work_suffix]
    obtain ⟨w, yields⟩ := Work.exists_yields_resume (w := { world, bindings := held }) failed suits
      body positive serves branch fine
    exact ⟨w, { yields with
      agree := fun _ hv => absurd hv List.not_mem_nil, pays := Work.reports_suffix ▸ yields.pays }⟩

/-- **A task of the line that runs** ends well, and leaves owed what it has not reported. -/
theorem Worth.run (suits : task.Suits start) (worth : task.Worth cx start t y)
    (serves : start.Serves task world.store) (failed : Bool) :
    (t.runLine cx failed world).result = .ok () ∧
      start.Serves task (t.runLine cx failed world).world.store ∧ ∃ ms owed,
        List.Forall₂ Report.Shows (t.reports cx failed world) ms ∧
          Work.Owes cx start task (t.runLine cx failed world).spawned
            (t.runLine cx failed world).world owed ∧
          .matched ms + owed = y + (0, world.counters.work) := by
  obtain ⟨w, yields⟩ := worth.exists_yields suits serves failed
  have ran : t.runLine cx failed world =
      { world := w.world, spawned := w.spawned.filter resumes, result := .ok () } := by
    rw [runLine, run_eq, yields.ends]
  rw [ran]
  have fresh : Work.Owes cx start task ((t.worker world).spawned.filter resumes)
      (t.worker world).world (0, world.counters.work) := ⟨[], .nil, (zero_add _).symm⟩
  exact ⟨rfl, yields.serves, yields.pays _ fresh⟩

end Task

/-! ## The line -/

/-- **A task of the line has less left to do** than the one that it goes on from. -/
theorem Task.goesOn_of_runLine {cx : Context} {task t : Task} {failed : Bool} {world : World}
    (h : t ∈ (task.runLine cx failed world).spawned) : task.GoesOn t :=
  of_runLine (fun left _ => ⟨rfl, rfl, left.length_le⟩) h

namespace Agenda

variable {cx : Context} {start : Store} {task : Task} {policy : Policy Task World} {budget : Nat}
  {a b : Agenda Task World} {owed : Yield}

/-- **An agenda of the line**: nothing has failed, and its tasks owe so much over a store that
serves them. -/
structure OnLine (cx : Context) (start : Store) (task : Task) (owed : Yield)
    (a : Agenda Task World) : Prop where
  fine : a.fault = none
  serves : start.Serves task a.world.store
  owes : Work.Owes cx start task a.waiting a.world owed

/-- **One task more**: what it reports is no longer owed. -/
theorem OnLine.runAt (h : a.OnLine cx start task owed) (suits : task.Suits start) {i : Nat}
    {t : Task} (hi : a.waiting[i]? = some t) : ∃ ms owed',
      (a.runAt (Task.runLine cx) i).OnLine cx start task owed' ∧
        List.Forall₂ Report.Shows (t.reports cx a.fault.isSome a.world) ms ∧
        .matched ms + owed' = owed := by
  obtain ⟨_, all, rfl⟩ := h.owes.perm (perm_waiting hi)
  obtain ⟨y, ys, worth, others, rfl⟩ := List.forall₂_cons_left_iff.1 all
  obtain ⟨ok, serves, ms, owed', shows₁, owes, balance⟩ :=
    worth.run suits h.serves a.fault.isSome
  refine ⟨ms, ys.sum + owed', ⟨(fault_runAt_eq_none_iff hi).2 ⟨h.fine, ok⟩, ?_, ?_⟩, shows₁, ?_⟩
  · rw [Agenda.runAt, hi]
    exact serves
  · rw [Agenda.runAt, hi]
    exact (owes.append others).perm List.perm_append_comm
  · rw [add_left_comm, balance, List.sum_cons]
    abel

/-- **Along the line** what is reported is what is no longer owed. -/
theorem OnLine.drain (h : a.OnLine cx start task owed) (suits : task.Suits start)
    (ran : Agenda.drain (Task.runLine cx) policy budget a = some b) : ∃ ms owed',
      b.OnLine cx start task owed' ∧ b.waiting = [] ∧
        List.Forall₂ Report.Shows
          (logged (Task.reports cx) (Task.runLine cx) policy budget a) ms ∧
        .matched ms + owed' = owed := by
  induction budget generalizing a owed with
  | zero =>
    rw [Agenda.drain] at ran
    split at ran
    · next hempty =>
      cases ran
      exact ⟨[], owed, h, List.isEmpty_iff.1 hempty, .nil, zero_add _⟩
    · cases ran
  | succ budget ih =>
    rw [Agenda.drain] at ran
    rw [logged]
    split at ran
    · next hempty =>
      cases ran
      have waiting := List.isEmpty_iff.1 hempty
      refine ⟨[], owed, h, waiting, ?_, zero_add _⟩
      rw [waiting]
      exact .nil
    · next hempty =>
      have hpos : 0 < a.waiting.length := List.length_pos_iff.2 (by simpa using hempty)
      obtain ⟨t, picked⟩ : ∃ t, a.waiting[policy a % a.waiting.length]? = some t :=
        ⟨_, List.getElem?_eq_getElem (Nat.mod_lt _ hpos)⟩
      obtain ⟨ms, owed', h', first, balance⟩ := h.runAt suits picked
      obtain ⟨ms', owed'', last, waiting, rest, balance'⟩ := ih h' ran
      refine ⟨ms ++ ms', owed'', last, waiting, ?_, ?_⟩
      · rw [picked]
        exact List.rel_append first rest
      · rw [Yield.matched_append, add_assoc, balance', balance]

/-- **A line comes to an end**, whatever becomes of its tasks. -/
theorem exists_drain_runLine (cx : Context) (policy : Policy Task World) (a : Agenda Task World) :
    ∃ enough b, ∀ budget ≥ enough, Agenda.drain (Task.runLine cx) policy budget a = some b :=
  Agenda.exists_drain (P := fun _ => True) (fun t => t.remaining.length) (fun _ => 0)
    (fun _ _ _ _ _ => ⟨trivial, .inr ⟨rfl, fun _ hu => (Task.goesOn_of_runLine hu).remaining⟩⟩)
    trivial

end Agenda

/-! ## All matches -/

namespace Task

variable {cx : Context} {start : Store} {task : Task} {ms : List (Bindings × Tuple)}

/-- **What the loops come to from the start**: the complete matches, and the tuples that they
bind. -/
theorem yield_of_complete (ok : (task.loops cx start).complete task.clause.clause = .ok ms) :
    task.yield cx start task.clause.body ∅ =
      .matched ms + (task.loops cx start).bound task.clause.clause.body ∅ • cx.taken := by
  obtain ⟨ends, ways, values⟩ := Loops.exists_ends ok
  have total : (ends.map (task.found cx)).sum = .matched ms := by
    clear ok ways
    induction values with
    | nil => rfl
    | @cons b m ends ms h _ ih =>
      obtain ⟨rfl, value⟩ := h
      have value : Tuple.evaluate m.1 cx.functions task.clause.head.args = .ok m.2 := value
      rw [List.map_cons, List.sum_cons, ih, found, value]
      exact Yield.matched_append.symm
  exact total ▸ Loops.weigh_of_ways ways

/-- No loop fails if all matches are completed and spare what the task reads. -/
theorem fine_of_complete (ok : (task.loops cx start).complete task.clause.clause = .ok ms)
    (spares : ∀ m ∈ ms, task.Spares start m.2) : task.Fine cx start task.clause.body ∅ := by
  obtain ⟨ends, ways, values⟩ := Loops.exists_ends ok
  refine Loops.fine_of_ways ways fun b hb => ?_
  obtain ⟨m, hm, _, value⟩ := Outcome.exists_of_forall₂ values hb
  exact ⟨m.2, value, spares m hm⟩

/-- **What a line reports**, if the nested loops find all their matches. -/
theorem reports_of_complete (suits : task.Suits start) (first : task.resumption = none)
    {world : World} (store : world.store = start)
    (ok : (task.loops cx start).complete task.clause.clause = .ok ms)
    (spares : ∀ m ∈ ms, task.Spares start m.2) {policy : Policy Task World} {budget : Nat}
    {last : Agenda Task World}
    (ran : Agenda.drain (runLine cx) policy budget { world, waiting := [task] } = some last) :
    last.fault = none ∧ start.Serves task last.world.store ∧
      (∃ found, List.Forall₂ Report.Shows (Agenda.logged (reports cx) (runLine cx) policy budget
        { world, waiting := [task] }) found ∧ found.Perm ms) ∧
      last.world.counters.work = world.counters.work +
        if cx.settings.recordWork then (task.loops cx start).bound task.clause.clause.body ∅
        else 0 := by
  have onLine : Agenda.OnLine cx start task
      (task.yield cx start task.clause.body ∅ + (0, world.counters.work))
      { world, waiting := [task] } := by
    refine ⟨rfl, store ▸ .refl, [_], .cons (.start first (fine_of_complete ok spares)) .nil, ?_⟩
    rw [List.sum_singleton]
  obtain ⟨found, owed, ends, waiting, shows₁, balance⟩ := onLine.drain suits ran
  obtain ⟨ys, worth, rfl⟩ := ends.owes
  rw [waiting, List.forall₂_nil_left_iff] at worth
  rw [worth, yield_of_complete ok] at balance
  obtain ⟨seen, counted⟩ := Prod.ext_iff.1 balance
  refine ⟨ends.fine, ends.serves, ⟨found, shows₁, Multiset.coe_eq_coe.1 ?_⟩, ?_⟩
  · simpa [Yield.matched, Context.taken] using seen
  · rw [Nat.add_comm]
    simpa [Yield.matched, Context.taken] using counted

/-- **A line that is run by walking comes to an end**, the same as by searching. -/
theorem exists_walkLine (cx : Context) (policy : Policy Task World) (world : World)
    (first : task.resumption = none) :
    ∃ enough last reported, ∀ budget ≥ enough, ∀ turns ≥ enough,
      walkLine cx policy turns budget { world, waiting := [task] } = some (last, reported) ∧
        Agenda.drain (runLine cx) policy budget { world, waiting := [task] } = some last ∧
        Agenda.logged (reports cx) (runLine cx) policy budget { world, waiting := [task] } =
          reported := by
  obtain ⟨enough, last, ends⟩ :=
    Agenda.exists_drain_runLine cx policy { world, waiting := [task] }
  have placed : ∀ t ∈ [task], t.Placed := by
    rintro t ht r hr
    rw [List.mem_singleton.1 ht, first] at hr
    cases hr
  have walks (budget : Nat) (hbudget : budget ≥ enough) :=
    walkLine_of_drain (a := { world, waiting := [task] }) placed (ends budget hbudget)
  obtain ⟨enough', walk⟩ := walks enough le_rfl
  refine ⟨max enough enough', last,
    Agenda.logged (reports cx) (runLine cx) policy enough { world, waiting := [task] },
    fun budget hbudget turns hturns => ?_⟩
  have h := le_of_max_le_left hbudget
  have walked := walk turns (le_of_max_le_right hturns) budget h
  refine ⟨walked, ends budget h, ?_⟩
  -- A larger budget makes no difference to what is listed.
  obtain ⟨more, walk'⟩ := walks budget h
  have same := (walk' (max turns more) (le_max_right ..) budget le_rfl).symm.trans
    (walk (max turns more) ((le_of_max_le_right hturns).trans (le_max_left ..)) budget h)
  exact (Prod.ext_iff.1 (Option.some.inj same)).2

/-- **A task and those that go on from it report what nested loops find.**  The clause is one that
compilation yields, and the tuples of a relation whose absence is asked for have its arity; of
other tuples nothing is asked.  Whatever the settings and the policy, the line comes to an end, and
so it does if every task of it walks over its body, back and forth.

Let nothing fail in the nested loops over the store and the seed, and let a fact that the store
does not have yet be one that it can take, of a relation that the task does not look up.  Then
nothing fails in the line, and what it reads stays as it was.  It has reported the complete
matches, each as often as the nested loops find it, and has counted as many tuples as they bind.

Where all tuples have the arity of their relations, a line that ends without a fault and leaves the
store as it was is enough for nothing to fail in the nested loops. -/
theorem reports_complete {rule : Rule} {mode : Unification} {delta : Option Nat} {next next' : Nat}
    (below : ∀ v ∈ rule.occurrences, v.number < next)
    (compiles : rule.compile mode delta next = .ok task.clause.clause next')
    (first : task.resumption = none) {world : World} (built : world.store.Built)
    (exact : ∀ g, .lookup g ∈ task.clause.clause.body → g.negated = true →
      ∀ t, world.store.Holds g.relation t → t.length = g.relation.arity)
    (cx : Context) (policy : Policy Task World) :
    ∃ enough last reported, ∀ budget ≥ enough, ∀ turns ≥ enough,
      walkLine cx policy turns budget { world, waiting := [task] } = some (last, reported) ∧
        Agenda.drain (runLine cx) policy budget { world, waiting := [task] } = some last ∧
        Agenda.logged (reports cx) (runLine cx) policy budget { world, waiting := [task] } =
          reported ∧
        (Facts.Measured world.store.Holds → task.SeedMeasured → last.fault = none →
          last.world.store = world.store →
          ∃ ms, Loops.complete ⟨cx.functions, world.store, task.seed⟩ task.clause.clause = .ok ms ∧
            ∀ m ∈ ms, task.Spares world.store m.2) ∧
        ∀ ms, Loops.complete ⟨cx.functions, world.store, task.seed⟩ task.clause.clause = .ok ms →
          (∀ m ∈ ms, task.Spares world.store m.2) →
            last.fault = none ∧
              (∀ r, task.Reads r → last.world.store.extent r = world.store.extent r) ∧
              (∃ found, List.Forall₂ Report.Shows reported found ∧ found.Perm ms) ∧
              last.world.counters.work = world.counters.work +
                if cx.settings.recordWork then
                  Loops.bound ⟨cx.functions, world.store, task.seed⟩ task.clause.clause.body ∅
                else 0 := by
  have orderly := Rule.orderly_of_compile below compiles
  have suits : task.Suits world.store :=
    ⟨orderly, built, fun g hg hn t ht => (exact g hg hn t ht).trans (orderly.goals g hg).symm⟩
  obtain ⟨enough, last, reported, ends⟩ := exists_walkLine cx policy world first
  refine ⟨enough, last, reported, fun budget hbudget turns hturns => ?_⟩
  obtain ⟨walks, ran, listed⟩ := ends budget hbudget turns hturns
  refine ⟨walks, ran, listed, fun measured seed fine same => ?_, fun ms ok spares => ?_⟩
  · obtain ⟨ms, ok, held⟩ := exists_complete orderly first built measured seed ran fine same
    exact ⟨ms, ok, fun m hm => .inl (held m hm)⟩
  · obtain ⟨fine, serves, found, counted⟩ := reports_of_complete suits first rfl ok spares ran
    exact ⟨fine, serves.extents, listed ▸ found, counted⟩

end Task

/-! ## Examples -/

namespace Hops

/-- A task takes one tuple at a time, and all of them are counted. -/
def counting : Context := { context with settings := { taskSize := 1, recordWork := true } }

/-- Both goals are positive and over `p`. -/
theorem goals (g : Goal) (hg : .lookup g ∈ first.clause.clause.body) :
    g.negated = false ∧ g.relation = p := by
  have all : ∀ step ∈ first.clause.clause.body,
      step.positiveGoal?.any (·.relation = p) = true := by decide
  have found := all _ hg
  rw [Step.positiveGoal?] at found
  split at found
  · cases found
  · next hn => exact ⟨by simpa using hn, by simpa using found⟩

theorem built : chain.store.Built := by
  have one : (Store.add ∅ p [.int 1, .int 2]).1.Built := Store.Built.empty.add nofun
  have two : ((Store.add ∅ p [.int 1, .int 2]).1.add p [.int 2, .int 3]).1.Built := one.add nofun
  exact two.add nofun

/-- Two matches, and five tuples bound on the way to them, oldest tasks first. -/
theorem exists_matches : ∃ enough last reported ms, ms.length = 2 ∧
    ∀ budget ≥ enough, ∀ turns ≥ enough,
      Task.walkLine counting (fun a => a.waiting.length - 1) turns budget
          { world := chain, waiting := [first] } = some (last, reported) ∧
        last.fault = none ∧
        (∀ r, first.Reads r → last.world.store.extent r = chain.store.extent r) ∧
        (∃ found, List.Forall₂ Report.Shows reported found ∧ found.Perm ms) ∧
        last.world.counters.work = 5 := by
  obtain ⟨next, compiles⟩ : ∃ n, rule.compile .assign none 1 = .ok first.clause.clause n :=
    ⟨_, rfl⟩
  obtain ⟨enough, last, reported, ends⟩ := Task.reports_complete (by decide) compiles rfl built
    (fun g hg hn => absurd hn (by rw [(goals g hg).1]; exact Bool.false_ne_true)) counting
    fun a => a.waiting.length - 1
  obtain ⟨ms, complete, two⟩ : ∃ ms,
      Loops.complete ⟨counting.functions, chain.store, first.seed⟩ first.clause.clause = .ok ms ∧
        ms.length = 2 := ⟨_, rfl, rfl⟩
  have shaped : chain.store.Shaped := Store.shaped_empty.add.add.add
  have unread : ¬first.Reads first.clause.head.relation := by
    rintro ⟨g, hg, hr, _⟩
    rw [(goals g hg).2] at hr
    exact absurd hr (by decide)
  refine ⟨enough, last, reported, ms, two, fun budget hbudget turns hturns => ?_⟩
  obtain ⟨walked, _, _, _, reports⟩ := ends budget hbudget turns hturns
  obtain ⟨fine, same, found, counted⟩ :=
    reports ms complete fun m _ => .inr ⟨shaped, unread⟩
  exact ⟨walked, fine, same, found, counted⟩

end Hops

namespace Stray

/-- What the rules start from. -/
def e : Relation := ⟨"e", 1, .extensional⟩

/-- Pairs under a key. -/
def p : Relation := ⟨"p", 3, .extensional⟩

/-- What the second rule leaves out. -/
def n : Relation := ⟨"n", 1, .extensional⟩

/-- What the first two rules derive. -/
def q : Relation := ⟨"q", 1, .bottomUp⟩

/-- The variable `k`. -/
def k : Term := .var ⟨"k", 0⟩

/-- The variable `x`. -/
def x : Term := .var ⟨"x", 0⟩

/-- The variable `y`. -/
def y : Term := .var ⟨"y", 0⟩

/-- `q(y) :- e(k), p(k, y, x), x = 20.` -/
def twenty : Rule where
  head := { relation := q, args := [y] }
  body := [.atom { relation := e, args := [k] }, .atom { relation := p, args := [k, y, x] },
    .unify x (.int 20) false]

/-- `q(x) :- e(x), !n(x).` -/
def lone : Rule where
  head := { relation := q, args := [x] }
  body := [.atom { relation := e, args := [x] },
    .atom { relation := n, args := [x], negated := true }]

/-- What the third rule derives. -/
def r : Relation := ⟨"r", 1, .bottomUp⟩

/-- `r(x) :- e(x), q(x).` -/
def joined : Rule where
  head := { relation := r, args := [x] }
  body := [.atom { relation := e, args := [x] }, .atom { relation := q, args := [x] }]

/-- The rule as it compiles, without indices. -/
def task (rule : Rule) : Task where
  clause :=
    match rule.compile .assign none 1 with
    | .ok c _ => ⟨c.head, c.body.map fun step => { step }⟩
    | .error .. => default
  seed := none
  generation := 0

/-- The same with an index for the second step. -/
def indexed (rule : Rule) : Task :=
  { task rule with clause :=
      { (task rule).clause with body := (task rule).clause.body.modify 1 fun slot =>
          { slot with index := some 1 } } }

/-- No functions, and tasks of the size. -/
def context (taskSize : Nat) : Context where
  functions := ∅
  settings := { taskSize }
  stratum := {}
  tracked := []

/-- Of the tuples of `p` the last one is too short; the facts of `q` are there already. -/
def short : World where
  store := Store.addAll ∅ [(e, [.int 5]), (e, [.int 1]), (p, [.int 5, .int 0, .int 10]),
    (p, [.int 1, .int 1, .int 20]), (p, [.int 1, .int 2, .int 20]), (p, [.int 1, .int 9]),
    (q, [.int 1]), (q, [.int 2]), (q, [.int 9])]

/-- The only tuple of `n` is too long. -/
def lengthy : World where
  store := Store.addAll ∅ [(e, [.int 1]), (n, [.int 1, .int 2]), (q, [.int 1])]

/-- An insertion has failed, so that the index goes without a fact of `q`. -/
def torn : World where
  store := ((Torn.store.add e [.int 1]).1.add r [.int 1]).1

/-- **A line without a fault** that leaves the store as it was, and what it reports. -/
def Calm (rule : Rule) (task : Task) (taskSize : Nat) (world : World) (tuples : List Tuple) :
    Prop :=
  (∃ next, rule.compile .assign none 1 = .ok task.clause.clause next) ∧
    (∃ last, Agenda.drain (Task.runLine (context taskSize)) Policy.newest 9
        { world, waiting := [task] } = some last ∧
      last.fault = none ∧ last.world.store = world.store) ∧
    (Agenda.logged (Task.reports (context taskSize)) (Task.runLine (context taskSize))
      Policy.newest 9 { world, waiting := [task] }).map Report.tuple = tuples

/-- **Where a tuple is too short, the size of the batches does matter**: a goal finds it and leaves
`x` as the tuple before has bound it.  Where a tuple is too long, a goal that asks for its absence
does not notice it, unlike a loop over the relation.  And where an insertion has failed, an index
does not find what a loop over the relation does. -/
theorem exists_unlike : short.store.Built ∧
    Calm twenty (task twenty) 128 short [[.int 1], [.int 2], [.int 9]] ∧
    Calm twenty (task twenty) 2 short [[.int 1], [.int 2]] ∧
    lengthy.store.Built ∧ Calm lone (task lone) 128 lengthy [[.int 1]] ∧
    Loops.complete ⟨(context 128).functions, lengthy.store, none⟩ (task lone).clause.clause =
      .ok [] ∧
    torn.store.Filled ∧ Calm joined (indexed joined) 128 torn [] ∧
    ∃ b, Loops.complete ⟨(context 128).functions, torn.store, none⟩
      (indexed joined).clause.clause = .ok [(b, [.int 1])] := by
  refine ⟨?_, ⟨⟨_, rfl⟩, ⟨_, rfl, rfl, rfl⟩, rfl⟩, ⟨⟨_, rfl⟩, ⟨_, rfl, rfl, rfl⟩, rfl⟩, ?_,
    ⟨⟨_, rfl⟩, ⟨_, rfl, rfl, rfl⟩, rfl⟩, rfl, Torn.filled.add.add,
    ⟨⟨_, rfl⟩, ⟨_, rfl, rfl, rfl⟩, rfl⟩, ⟨_, rfl⟩⟩
  · exact Store.Built.empty.addAll fun _ => rfl
  · exact Store.Built.empty.addAll fun _ => rfl

end Stray

end Datalog
