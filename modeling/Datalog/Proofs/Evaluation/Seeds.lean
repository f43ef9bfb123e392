import Datalog.Proofs.Evaluation.Conclude
import Datalog.Proofs.Evaluation.Run

/-!
# Proofs/Evaluation/Seeds — every new tuple is handed on once

A **seed** is a batch that is set off, or what the delta holds of a relation when a round ends.  The
**ledger** accounts for every new tuple of a relation that sets off clauses: a seed holds it, or it
is batched, or it is in the delta, and only one of these (`Ledger`).  Concluding enters a tuple and
setting off moves the batch to a seed, so in the end the seeds hold all that is new, once each
(`Evaluation.handed_once`).
-/

namespace Datalog

/-- **New tuples of a relation**, for the clauses that they set off. -/
structure Seed where
  relation : Relation
  tuples : List Tuple
  generation : Nat := 0

namespace Seed

/-- One task for each of the clauses. -/
def tasks (cx : Context) (s : Seed) : List Task :=
  (cx.stratum.firedBy s.relation).map fun clause =>
    { clause, seed := some s.tuples, generation := s.generation }

/-- The tuples of a relation in the seeds, one after the other. -/
def handed (seeds : List Seed) (r : Relation) : List Tuple :=
  seeds.flatMap fun s => if s.relation = r then s.tuples else []

end Seed

/-- The task starts a clause on a seed; other tasks go on where one has left off, or have none. -/
def Task.isStart (t : Task) : Bool := t.seed.isSome && t.resumption.isNone

theorem Seed.isStart_of_mem_tasks {cx : Context} {s : Seed} {t : Task} (h : t ∈ s.tasks cx) :
    t.isStart = true := by
  obtain ⟨c, _, rfl⟩ := List.mem_map.1 h
  rfl

/-! ## Extents that balance -/

/-- **The extent balances**: it is what it was at the start and what is accounted for, which is new
and without repetition. -/
def Balanced (start now account : List Tuple) : Prop :=
  ∃ new, now = start ++ new ∧ account.Perm new ∧ new.Nodup ∧ ∀ t ∈ new, t ∉ start

namespace Balanced

variable {start now account account' : List Tuple} {t : Tuple}

theorem refl (start : List Tuple) : Balanced start start [] :=
  ⟨[], (List.append_nil _).symm, .nil, List.nodup_nil, nofun⟩

theorem perm (h : Balanced start now account) (hp : account'.Perm account) :
    Balanced start now account' := by
  obtain ⟨new, hnow, hperm, hd, hnew⟩ := h
  exact ⟨new, hnow, hp.trans hperm, hd, hnew⟩

/-- A new tuple is accounted for. -/
theorem enter (h : Balanced start now account) (ht : t ∉ now) :
    Balanced start (now ++ [t]) (t :: account) := by
  obtain ⟨new, rfl, hperm, hd, hnew⟩ := h
  rw [List.mem_append, not_or] at ht
  refine ⟨new ++ [t], List.append_assoc .., ?_, List.concat_eq_append ▸ hd.concat ht.2,
    List.forall_mem_append.2 ⟨hnew, List.forall_mem_singleton.2 ht.1⟩⟩
  exact (hperm.cons t).trans (List.perm_append_singleton t new).symm

theorem nodup (h : Balanced start now account) : account.Nodup := by
  obtain ⟨new, _, hperm, hd, _⟩ := h
  exact hperm.nodup_iff.2 hd

/-- **What is accounted for is what is new.** -/
theorem mem_iff (h : Balanced start now account) : t ∈ account ↔ t ∈ now ∧ t ∉ start := by
  obtain ⟨new, rfl, hperm, _, hnew⟩ := h
  rw [hperm.mem_iff, List.mem_append]
  exact ⟨fun ht => ⟨.inr ht, hnew t ht⟩, fun ht => ht.1.resolve_left ht.2⟩

end Balanced

/-! ## The ledger -/

/-- **The ledger**: the tasks that have been made start the clauses of the seeds, once each, and
the tuples of the seeds, of the batch and of the delta are what is new to the store. -/
structure Ledger (cx : Context) (start : Store) (seeds : List Seed) (tasks : List Task)
    (world : World) (batched : Relation → List Tuple) : Prop where
  starts : (tasks.filter Task.isStart).Perm (seeds.flatMap (Seed.tasks cx))
  seeded : ∀ t ∈ tasks, ∀ tuples, t.seed = some tuples →
    ∃ s ∈ seeds, t.clause ∈ cx.stratum.firedBy s.relation ∧ tuples = s.tuples
  balanced : ∀ r, cx.stratum.recursive.contains r = true →
    Balanced (start.extent r).tuples (world.store.extent r).tuples
      (Seed.handed seeds r ++ (batched r ++ (world.delta.get? r).getD []))

namespace Ledger

variable {cx : Context} {start : Store} {seeds : List Seed} {tasks tasks' : List Task}
  {world : World} {batched : Relation → List Tuple} {task : Task}

/-- The order of the tasks makes no difference. -/
theorem perm (h : Ledger cx start seeds tasks world batched) (hp : tasks'.Perm tasks) :
    Ledger cx start seeds tasks' world batched :=
  ⟨(hp.filter _).trans h.starts, fun t ht => h.seeded t (hp.mem_iff.1 ht), h.balanced⟩

/-- Tasks that go on where one has left off start nothing. -/
theorem suffixes {goal : Goal} {rest : List Slot} {bindings : Bindings}
    {others : List (List Tuple)} (h : Ledger cx start seeds tasks world batched)
    (hmem : task ∈ tasks) :
    Ledger cx start seeds
      ((others.map (Work.suffix task goal rest bindings)).reverse ++ tasks) world batched := by
  refine ⟨?_, fun t ht tuples hseed => ?_, h.balanced⟩
  · rw [List.filter_append, List.filter_eq_nil_iff.2, List.nil_append]
    · exact h.starts
    · intro t ht
      obtain ⟨ts, _, rfl⟩ := List.mem_map.1 (List.mem_reverse.1 ht)
      simp [Task.isStart, Work.suffix]
  · rcases List.mem_append.1 ht with ht | ht
    · obtain ⟨ts, _, rfl⟩ := List.mem_map.1 (List.mem_reverse.1 ht)
      exact h.seeded task hmem tuples hseed
    · exact h.seeded t ht tuples hseed

/-- **New seeds** take over what was batched or in the delta. -/
theorem handOn {new : List Seed} {world' : World} {batched' : Relation → List Tuple}
    (h : Ledger cx start seeds tasks world batched) (store : world'.store = world.store)
    (account : ∀ r, cx.stratum.recursive.contains r = true →
      (Seed.handed new r ++ (batched' r ++ (world'.delta.get? r).getD [])).Perm
        (batched r ++ (world.delta.get? r).getD [])) :
    Ledger cx start (new ++ seeds) ((new.flatMap (Seed.tasks cx)).reverse ++ tasks) world'
      batched' := by
  refine ⟨?_, fun t ht tuples hseed => ?_, fun r hr => ?_⟩
  · rw [List.filter_append, List.flatMap_append, List.filter_eq_self.2]
    · exact (List.reverse_perm _).append h.starts
    · intro t ht
      obtain ⟨s, _, ht⟩ := List.mem_flatMap.1 (List.mem_reverse.1 ht)
      exact Seed.isStart_of_mem_tasks ht
  · rcases List.mem_append.1 ht with ht | ht
    · obtain ⟨s, hs, ht⟩ := List.mem_flatMap.1 (List.mem_reverse.1 ht)
      obtain ⟨c, hc, rfl⟩ := List.mem_map.1 ht
      exact ⟨s, List.mem_append_left _ hs, hc, (Option.some.inj hseed).symm⟩
    · obtain ⟨s, hs, hc, htuples⟩ := h.seeded t ht tuples hseed
      exact ⟨s, List.mem_append_right _ hs, hc, htuples⟩
  · rw [store]
    refine (h.balanced r hr).perm ?_
    rw [Seed.handed, List.flatMap_append]
    refine List.perm_append_comm.append_right _ |>.trans ?_
    rw [List.append_assoc]
    exact (account r hr).append_left _

/-- **A new tuple** is batched or goes to the delta. -/
theorem enter {r : Relation} {tuple : Tuple} {world' : World} {batched' : Relation → List Tuple}
    (h : Ledger cx start seeds tasks world batched) (fresh : ¬Store.Holds world.store r tuple)
    (store : world'.store = (Store.add world.store r tuple).1)
    (account : ∀ r', cx.stratum.recursive.contains r' = true →
      (batched' r' ++ (world'.delta.get? r').getD []).Perm
        (if r = r' then tuple :: (batched r' ++ (world.delta.get? r').getD [])
          else batched r' ++ (world.delta.get? r').getD [])) :
    Ledger cx start seeds tasks world' batched' := by
  refine ⟨h.starts, h.seeded, fun r' hr' => ?_⟩
  have moved := account r' hr'
  rw [store, Store.tuples_add fresh]
  split at moved
  · next hr =>
    subst hr
    rw [if_pos rfl]
    exact ((h.balanced r hr').enter fresh).perm
      ((moved.append_left _).trans List.perm_middle)
  · next hr =>
    rw [if_neg hr]
    exact (h.balanced r' hr').perm (moved.append_left _)

end Ledger

/-! ## Tasks -/

/-- A batch counts for the head's relation. -/
def Task.batched (task : Task) (batch : List Tuple) (r : Relation) : List Tuple :=
  if task.clause.head.relation = r then batch else []

namespace Work

variable {cx : Context} {start : Store} {task : Task} {before : List Task}

/-- **The ledger of a worker** that runs one of the tasks that were there before. -/
def Accounts (cx : Context) (start : Store) (task : Task) (before : List Task) (w : Worker) :
    Prop :=
  ∃ seeds, Ledger cx start seeds (w.spawned ++ before) w.world (task.batched w.batch)

theorem blind_accounts : Blind (Accounts cx start task before) := by
  refine ⟨fun idles h => ?_, fun b h => h⟩
  obtain ⟨seeds, h⟩ := h
  refine ⟨seeds, ?_⟩
  rw [idles.spawned, idles.batch]
  refine ⟨h.starts, h.seeded, fun r hr => ?_⟩
  rw [idles.store, idles.delta]
  exact h.balanced r hr

theorem accounts_suffixes (hmem : task ∈ before) (w : Worker) (goal : Goal) (rest : List Slot)
    (bindings : Bindings) (others : List (List Tuple)) (h : Accounts cx start task before w) :
    Accounts cx start task before
      { w with spawned := (others.map (suffix task goal rest bindings)).reverse ++ w.spawned } := by
  obtain ⟨seeds, h⟩ := h
  refine ⟨seeds, ?_⟩
  rw [List.append_assoc]
  exact h.suffixes (List.mem_append_right _ hmem)

/-- **Setting off** moves the batch to a seed. -/
theorem Accounts.fired {w : Worker} (h : Accounts cx start task before w) :
    Accounts cx start task before { w with
      batch := [], spawned := (task.fired cx w.batch).reverse ++ w.spawned } := by
  obtain ⟨seeds, h⟩ := h
  let seed : Seed := ⟨task.clause.head.relation, w.batch, task.generation + 1⟩
  refine ⟨[seed] ++ seeds, ?_⟩
  have ledger : Ledger cx start ([seed] ++ seeds)
      (([seed].flatMap (Seed.tasks cx)).reverse ++ (w.spawned ++ before)) w.world (task.batched []) :=
    h.handOn rfl fun r _ => by
      simp [Seed.handed, Task.batched, seed]
  rw [List.flatMap_singleton, ← List.append_assoc] at ledger
  exact ledger

theorem setOff_accounts : Keeps (Accounts cx start task before) (setOff cx task false) := by
  intro w u w' h ok
  rcases setOff_ok ok with ⟨_, rfl⟩ | ⟨_, idles⟩
  · exact h
  · exact blind_accounts.idles idles h.fired

/-- **Concluding** enters the tuple, if it is new. -/
theorem conclude_accounts : Keeps (Accounts cx start task before) (conclude cx task false) := by
  intro w u w' h ok
  obtain ⟨tuple, _, ⟨_, idles⟩ | ⟨fresh, _, w₁, kept, idles⟩⟩ := conclude_ok ok
  · exact blind_accounts.idles idles h
  · refine blind_accounts.idles idles ?_
    have batched : Accounts cx start task before
        { entered task tuple w with batch := w.batch ++ [tuple] } := by
      obtain ⟨seeds, h⟩ := h
      refine ⟨seeds, h.enter fresh rfl fun r _ => ?_⟩
      change (task.batched (w.batch ++ [tuple]) r ++ _).Perm _
      rw [Task.batched, Task.batched]
      split
      · rw [List.append_assoc]
        exact List.perm_middle
      · exact .rfl
    cases kept with
    | idle inert =>
      obtain ⟨seeds, h⟩ := h
      refine ⟨seeds, h.enter fresh rfl fun r hr => ?_⟩
      rw [if_neg]
      · exact .rfl
      rintro rfl
      rw [inert] at hr
      cases hr
    | batched => exact batched
    | fired => exact batched.fired
    | delayed =>
      obtain ⟨seeds, h⟩ := h
      refine ⟨seeds, h.enter fresh rfl fun r _ => ?_⟩
      dsimp only
      rw [Assoc.get?_alter]
      split
      · next hr =>
        rw [hr]
        exact List.perm_middle
      · exact .rfl

end Work

/-! ## Rounds -/

namespace Evaluation

variable {cx : Context} {start : Store} {schedule : Schedule} {budget : Nat}

/-- **The seeds of the next round**: what the delta holds of each relation, as it is listed, if it
holds anything. -/
def drained (cx : Context) (delta : Assoc Relation (List Tuple)) : List Seed :=
  cx.stratum.recursive.entries.flatMap fun e =>
    match cx.listing.waited e.1 ((delta.get? e.1).getD []) with
    | [] => []
    | tuples => [{ relation := e.1, tuples }]

/-- The tasks of the next round are those of its seeds. -/
theorem seededTasks_eq (cx : Context) (delta : Assoc Relation (List Tuple)) :
    seededTasks cx delta = (drained cx delta).flatMap (Seed.tasks cx) := by
  rw [seededTasks, drained, List.flatMap_assoc]
  refine List.flatMap_congr fun e he => ?_
  have fired : cx.stratum.firedBy e.1 = e.2 := by
    rw [Stratum.firedBy, Assoc.get?_eq_some_iff.2 he]
    rfl
  dsimp only
  cases cx.listing.waited e.1 ((delta.get? e.1).getD []) with
  | nil => rfl
  | cons t ts => rw [List.flatMap_singleton, Seed.tasks, fired]

/-- **The delta is drained**, relation by relation. -/
theorem handed_drained {delta : Assoc Relation (List Tuple)} {r : Relation}
    (hr : cx.stratum.recursive.contains r = true) :
    Seed.handed (drained cx delta) r = cx.listing.waited r ((delta.get? r).getD []) := by
  obtain ⟨clauses, hr⟩ := Assoc.contains_iff.1 hr
  rw [← Assoc.flatMap_entries (f := fun e => cx.listing.waited e.1 ((delta.get? e.1).getD []))
    cx.stratum.recursive.nodup (Assoc.get?_eq_some_iff.1 hr), Seed.handed, drained,
    List.flatMap_assoc]
  refine List.flatMap_congr fun e _ => ?_
  cases cx.listing.waited e.1 ((delta.get? e.1).getD []) with
  | nil => rw [ite_self, List.flatMap_nil]
  | cons t ts => rw [List.flatMap_singleton]

/-- What a seed holds was in the delta. -/
theorem mem_of_drained {delta : Assoc Relation (List Tuple)} {s : Seed} {x : Tuple}
    (hs : s ∈ drained cx delta) (hx : x ∈ s.tuples) : x ∈ (delta.get? s.relation).getD [] := by
  obtain ⟨e, _, hs⟩ := List.mem_flatMap.1 hs
  cases hd : cx.listing.waited e.1 ((delta.get? e.1).getD []) with
  | nil =>
    rw [hd] at hs
    cases hs
  | cons t ts =>
    rw [hd] at hs
    obtain rfl := List.mem_singleton.1 hs
    exact Listing.mem_waited.1 (hd ▸ hx)

/-- **A tuple in the delta** comes to a seed, if it sets off anything. -/
theorem exists_drained {delta : Assoc Relation (List Tuple)} {r : Relation} {x : Tuple}
    {v : PlannedClause} (hx : x ∈ (delta.get? r).getD []) (hv : v ∈ cx.stratum.firedBy r) :
    ∃ s ∈ drained cx delta, s.relation = r ∧ x ∈ s.tuples := by
  have hr : cx.stratum.recursive.contains r = true := by
    rw [Assoc.contains_iff]
    rw [Stratum.firedBy] at hv
    cases hr : cx.stratum.recursive.get? r with
    | none =>
      rw [hr] at hv
      cases hv
    | some clauses => exact ⟨clauses, rfl⟩
  rw [← Listing.mem_waited (l := cx.listing), ← handed_drained hr] at hx
  obtain ⟨s, hs, hx⟩ := List.mem_flatMap.1 hx
  split at hx
  · next h => exact ⟨s, hs, h, hx⟩
  · cases hx

/-- **The ledger between rounds**, with nothing batched. -/
def Accounts (cx : Context) (start : Store) (e : Evaluation) : Prop :=
  e.context = cx ∧ ∃ seeds, Ledger cx start seeds e.history.flatten e.world fun _ => []

/-- **A task keeps the ledger** of the agenda. -/
theorem ledger_step {seeds : List Seed} {old : List Task} {a : Agenda Task World} {i : Nat}
    {task : Task} (hi : a.waiting[i]? = some task)
    (ok : (Task.run cx false task a.world).result = .ok ())
    (h : Ledger cx start seeds (a.waiting ++ (a.finished ++ old)) a.world fun _ => []) :
    ∃ seeds', Ledger cx start seeds' ((a.ranAt i task (Task.run cx false task a.world)).waiting ++
      ((a.ranAt i task (Task.run cx false task a.world)).finished ++ old))
      (a.ranAt i task (Task.run cx false task a.world)).world fun _ => [] := by
  have hmem : task ∈ a.waiting ++ (a.finished ++ old) :=
    List.mem_append_left _ (List.mem_iff_getElem?.2 ⟨i, hi⟩)
  obtain ⟨w, hwork, hrun⟩ := Task.run_ok ok
  have accounts : Work.Accounts cx start task (a.waiting ++ (a.finished ++ old))
      { world := a.world, bindings := (task.resumption.map (·.bindings)).getD ∅ } := by
    refine ⟨seeds, h.starts, h.seeded, fun r hr => ?_⟩
    rw [Task.batched, ite_self]
    exact h.balanced r hr
  obtain ⟨⟨seeds', h'⟩, hbatch⟩ := Work.Keeps.work Work.blind_accounts
    (Work.accounts_suffixes hmem) Work.conclude_accounts Work.setOff_accounts _ _ _
    ⟨accounts, rfl⟩ hwork
  have none : task.batched w.batch = fun _ => [] := by
    funext r
    rw [hbatch, Task.batched, ite_self]
  rw [none] at h'
  refine ⟨seeds', ?_⟩
  rw [hrun, Agenda.ranAt]
  refine h'.perm ?_
  rw [List.append_assoc]
  refine List.Perm.append_left _ ?_
  rw [List.cons_append]
  refine List.perm_middle.trans ?_
  rw [← List.cons_append]
  exact (Agenda.perm_waiting hi).append_right _

/-- **A round keeps the ledger** if its agenda starts with it. -/
theorem accounts_of_round {e e' : Evaluation} {tasks : List Task} {seeds : List Seed} {u : Unit}
    (h : round schedule budget tasks e = some (e', .ok u)) (hcx : e.context = cx)
    (ledger : Ledger cx start seeds (tasks.reverse ++ e.history.flatten)
      { e.world with delta := ∅ } fun _ => []) : Accounts cx start e' := by
  obtain ⟨a, hdrain, hfault, rfl⟩ := round_ok h
  subst hcx
  obtain ⟨⟨seeds', h'⟩, hwaiting⟩ := Agenda.drain_induction
    (P := fun a => ∃ seeds, Ledger e.context start seeds
      (a.waiting ++ (a.finished ++ e.history.flatten)) a.world fun _ => [])
    (fun a i task hi ok ⟨seeds, h⟩ => ledger_step hi ok h) hdrain hfault
    ⟨seeds, ledger.starts, ledger.seeded, ledger.balanced⟩
  refine ⟨rfl, seeds', ?_⟩
  rw [hwaiting, List.nil_append] at h'
  rw [List.flatten_cons]
  exact h'

/-- **The delta becomes seeds** when a round ends. -/
theorem Accounts.drain {e : Evaluation} (h : Accounts cx start e) :
    ∃ seeds, Ledger cx start seeds
      ((seededTasks e.context e.world.delta).reverse ++ e.history.flatten)
      { e.world with delta := ∅ } fun _ => [] := by
  obtain ⟨rfl, seeds, h⟩ := h
  refine ⟨drained e.context e.world.delta ++ seeds, ?_⟩
  rw [seededTasks_eq]
  refine h.handOn rfl fun r hr => ?_
  rw [handed_drained hr]
  simpa using e.context.listing.waited_perm r _

/-- **Every new tuple is handed on once.**  The tasks that started on a seed are, in some order,
those of a list of seeds, one for each clause that the seed's relation sets off; whatever else
ran with a seed went on with one of these.  Together the seeds of a relation hold, without
repetition, the tuples that were not stored at the start and are now. -/
theorem handed_once {world : World} {e : Evaluation} {summary : Summary}
    (h : run schedule budget { context := cx, world } = some (e, .ok summary)) :
    ∃ seeds : List Seed,
      (e.history.flatten.filter Task.isStart).Perm (seeds.flatMap (Seed.tasks cx)) ∧
      (∀ t ∈ e.history.flatten, ∀ tuples, t.seed = some tuples →
        ∃ s ∈ seeds, t.clause ∈ cx.stratum.firedBy s.relation ∧ tuples = s.tuples) ∧
      ∀ r, cx.stratum.recursive.contains r = true → (Seed.handed seeds r).Nodup ∧
        ∀ t, t ∈ Seed.handed seeds r ↔ e.world.store.Holds r t ∧ ¬world.store.Holds r t := by
  have unseeded (t : Task) (ht : t ∈ (baseTasks cx).reverse ++ [].flatten) : t.seed = none := by
    rw [List.flatten_nil, List.append_nil] at ht
    obtain ⟨c, _, rfl⟩ := List.mem_map.1 (List.mem_reverse.1 ht)
    rfl
  have ledger : Ledger cx world.store [] ((baseTasks cx).reverse ++ [].flatten)
      { world with delta := ∅ } fun _ => [] := by
    refine ⟨?_, fun t ht tuples hseed => ?_, fun r _ => .refl _⟩
    · rw [List.filter_eq_nil_iff.2]
      · exact .nil
      · intro t ht
        rw [Task.isStart, unseeded t ht]
        exact Bool.false_ne_true
    · rw [unseeded t ht] at hseed
      cases hseed
  obtain ⟨e₁, accounts, hempty, rfl⟩ := run_induction (P := Accounts cx world.store) h
    (fun e₁ u hround => accounts_of_round hround rfl ledger)
    (fun e₁ e₂ number u accounts hround => by
      obtain ⟨seeds, ledger⟩ := accounts.drain
      exact accounts_of_round hround accounts.1 ledger)
  obtain ⟨seeds, ledger⟩ := accounts.drain
  rw [hempty] at ledger
  refine ⟨seeds, ledger.starts, ledger.seeded, fun r hr => ?_⟩
  have balanced := ledger.balanced r hr
  rw [List.nil_append, Assoc.get?_emptyCollection, Option.getD_none, List.append_nil] at balanced
  exact ⟨balanced.nodup, fun t => balanced.mem_iff⟩

end Evaluation

/-- The paths of a chain, in a run whose last generation waits for the next round. -/
theorem Reach.exists_seeds : ∃ e summary,
    Evaluation.run Policy.newest 10 evaluation = some (e, .ok summary) ∧ ∃ seeds : List Seed,
      (e.history.flatten.filter Task.isStart).Perm
        (seeds.flatMap (Seed.tasks evaluation.context)) ∧
      (∀ t ∈ e.history.flatten, ∀ tuples, t.seed = some tuples →
        ∃ s ∈ seeds, t.clause ∈ evaluation.context.stratum.firedBy s.relation ∧
          tuples = s.tuples) ∧
      ∀ r, evaluation.context.stratum.recursive.contains r = true → (Seed.handed seeds r).Nodup ∧
        ∀ t, t ∈ Seed.handed seeds r ↔
          e.world.store.Holds r t ∧ ¬evaluation.world.store.Holds r t := by
  obtain ⟨e, summary, h⟩ := run_ok
  refine ⟨e, summary, h, ?_⟩
  have start : evaluation = { context := evaluation.context, world := evaluation.world } := rfl
  rw [start] at h
  exact Evaluation.handed_once h

end Datalog
