import Datalog.Proofs.Accounts
import Datalog.Proofs.Evaluation.Position
import Datalog.Proofs.Evaluation.Values

/-!
# Proofs/Evaluation/Blame — what a fault names

A fault starts bare, in the evaluation of a term.  The step or the head that the term belongs to
puts its literal around it, and the task puts the rule around that; wherever the task was cut in
two, each part runs through both exactly once (`Work.blames_steady`).  A crash has no context.  It
comes from a native function, or from an index of the store that is on a position which a new tuple
does not have.
-/

namespace Datalog

/-! ## Bare faults -/

/-- **A fault without context.** -/
def Fault.Bare : Fault → Prop
  | inLiteral _ _ | inRule _ _ => False
  | _ => True

theorem Fault.Bare.root_eq {f : Fault} (h : f.Bare) : f.root = f := by
  cases f <;> first | rfl | exact h.elim

/-- **The functions raise bare faults**; what goes around them is not their business. -/
def Functions.Bare (fns : Functions) : Prop :=
  ∀ name fn, fns.get? name = some fn → ∀ xs f, fn.run xs = .error (.fault f) → f.Bare

/-- **A native function crashes** with the message, on arguments that it accepts the number of. -/
def Functions.Crashes (fns : Functions) (message : Option String) : Prop :=
  ∃ name fn xs, fns.get? name = some fn ∧ fn.arity = xs.length ∧
    fn.run xs = .error (.crash message)

/-- The result is no error but a bare fault, and so no crash. -/
def Outcome.Plain {α : Type} (x : Except Abort α) : Prop :=
  ∀ e, x = .error e → ∃ f : Fault, e = .fault f ∧ f.Bare

namespace Outcome.Plain

variable {α β : Type}

theorem ok {a : α} : Plain (.ok a : Except Abort α) := nofun

theorem fault {f : Fault} (bare : f.Bare) : Plain (.error (.fault f) : Except Abort α) :=
  fun _ h => ⟨f, (Except.error.inj h).symm, bare⟩

theorem bind {x : Except Abort α} {f : α → Except Abort β} (hx : Plain x)
    (hf : ∀ a, Plain (f a)) : Plain (x >>= f) := by
  intro e h
  rcases Outcome.except_bind_error_iff.1 h with h | ⟨a, _, h⟩
  · exact hx e h
  · exact hf a e h

end Outcome.Plain

/-- **The function never crashes**, and its faults are bare. -/
def Function.Plain (fn : Function) : Prop := ∀ xs, Outcome.Plain (fn.run xs)

namespace Builtin

open Outcome (Plain)

variable {name : String}

theorem plain_integer {t : Term} : Plain (integer name t) := by
  rw [integer]
  split
  · exact .ok
  · exact .fault trivial

theorem plain_exactly {n : Int} : Plain (exactly name n) := by
  rw [exactly]
  split
  · exact .ok
  · exact .fault trivial

theorem plain_unary {f : Term → Except Abort Term} (hf : ∀ t, Plain (f t)) :
    (Function.unary name f).Plain := by
  intro xs
  rw [Function.unary]
  dsimp only
  split
  · exact hf _
  · exact .fault trivial

theorem plain_binary {f : Term → Term → Except Abort Term} (hf : ∀ s t, Plain (f s t)) :
    (Function.binary name f).Plain := by
  intro xs
  rw [Function.binary]
  dsimp only
  split
  · exact hf _ _
  · exact .fault trivial

theorem plain_onIntegers {f : Int → Int → Except Abort Term} (hf : ∀ a b, Plain (f a b)) :
    (onIntegers name f).Plain :=
  plain_binary fun _ _ => .bind plain_integer fun _ => .bind plain_integer fun _ => hf _ _

theorem plain_arithmetic {op : Int → Int → Int} : (arithmetic name op).Plain :=
  plain_onIntegers fun _ _ => plain_exactly

theorem plain_division {result : Int → Int → Int} : (division name result).Plain := by
  refine plain_onIntegers fun a b => ?_
  split
  · exact .fault trivial
  · split
    · exact .fault trivial
    · exact plain_exactly

theorem plain_comparison {test : Int → Int → Bool} : (comparison name test).Plain :=
  plain_onIntegers fun _ _ => .ok

theorem plain_negation : (negation name).Plain :=
  plain_unary fun _ => .bind plain_integer fun _ => plain_exactly

theorem plain_concatenation : (concatenation name).Plain := by
  refine plain_binary fun s t => ?_
  split
  · exact .ok
  · exact .fault trivial

end Builtin

/-- **The functions every program has** never crash, and their faults are bare. -/
theorem Functions.plain_of_builtin {name : String} {fn : Function}
    (h : Functions.builtin.get? name = some fn) : fn.Plain := by
  have listed := Assoc.mem_of_get?_ofList h
  simp only [List.mem_cons, Prod.mk.injEq, List.not_mem_nil, or_false] at listed
  obtain ⟨_, rfl⟩ | ⟨_, rfl⟩ | ⟨_, rfl⟩ | ⟨_, rfl⟩ | ⟨_, rfl⟩ | ⟨_, rfl⟩ | ⟨_, rfl⟩ | ⟨_, rfl⟩ |
    ⟨_, rfl⟩ | ⟨_, rfl⟩ | ⟨_, rfl⟩ := listed
  any_goals exact Builtin.plain_arithmetic
  any_goals exact Builtin.plain_division
  any_goals exact Builtin.plain_comparison
  · exact Builtin.plain_negation
  · exact Builtin.plain_concatenation

theorem Functions.bare_builtin : Functions.builtin.Bare := by
  intro name fn hfn xs f raised
  obtain ⟨f', same, bare⟩ := plain_of_builtin hfn xs _ raised
  exact Abort.fault.inj same ▸ bare

theorem Functions.not_crashes_builtin (message : Option String) :
    ¬Functions.builtin.Crashes message := by
  rintro ⟨name, fn, xs, hfn, _, crashed⟩
  obtain ⟨f, same, _⟩ := plain_of_builtin hfn xs _ crashed
  cases same

/-- What a term raises is bare. -/
theorem Term.bare_of_evaluate {fns : Functions} {b : Bindings} {t : Term} {f : Fault}
    (bare : fns.Bare) (h : t.evaluate b fns = .error (.fault f)) : f.Bare := by
  rw [evaluate_eq_valueIn] at h
  obtain ⟨_, _, _, h⟩ | ⟨name, xs, _, h⟩ := valueIn_error h
  · exact (Abort.fault.inj h) ▸ trivial
  · obtain h | ⟨fn, hfn, ⟨_, h⟩ | ⟨_, h⟩⟩ := Functions.call_error h
    · exact (Abort.fault.inj h) ▸ trivial
    · exact (Abort.fault.inj h) ▸ trivial
    · exact bare name fn hfn xs f h

/-! ## Literals -/

/-- **The literals of a clause**, its steps and its head, each with the terms that it evaluates. -/
def PlannedClause.literals (c : PlannedClause) : List (String × List Term) :=
  (c.head.text, c.head.args) :: c.body.map fun slot => (slot.step.text, slot.step.terms)

/-- **The fault names the clause and a literal of it**, each once, and inside them is what evaluating
a term of the literal raised. -/
def Fault.Names (f : Fault) (fns : Functions) (c : PlannedClause) (root : Fault) : Prop :=
  ∃ literal ∈ c.literals, f = .inRule c.text (.inLiteral literal.1 root) ∧
    ∃ t ∈ literal.2, ∃ b : Bindings, t.evaluate b fns = .error (.fault root)

/-- **The tuple is too short** for one of the indices that the store has of the clause's head. -/
def PlannedClause.Misfits (fns : Functions) (s : Store) (c : PlannedClause) (m : Misfit) : Prop :=
  ∃ (b : Bindings) (tuple : Tuple), Tuple.evaluate b fns c.head.args = .ok tuple ∧
    m.length = tuple.length ∧ tuple.length ≤ m.position ∧
    ∃ i ∈ (s.extent c.head.relation).indices, m.position ∈ i.positions

/-! ## Positions -/

/-- Where a projection fails the tuple has ended. -/
theorem Index.misfit_of_project {tuple : Tuple} {m : Misfit} : ∀ {positions : List Nat},
    project tuple positions = .error m →
      m.length = tuple.length ∧ tuple.length ≤ m.position ∧ m.position ∈ positions
  | [], h => nomatch h
  | p :: ps, h => by
    rw [project] at h
    cases hp : tuple[p]? with
    | none =>
      rw [hp] at h
      cases h
      exact ⟨rfl, List.getElem?_eq_none_iff.1 hp, List.mem_cons_self ..⟩
    | some x =>
      rw [hp] at h
      rcases Outcome.except_bind_error_iff.1 h with h | ⟨_, _, h⟩
      · obtain ⟨length, short, hm⟩ := misfit_of_project h
        exact ⟨length, short, List.mem_cons_of_mem _ hm⟩
      · cases h

/-- Where an insertion fails some index is on a position too far. -/
theorem Extent.misfit_of_insertAll {tuple : Tuple} {m : Misfit} : ∀ {indices : List Index},
    (insertAll tuple indices).2 = some m → m.length = tuple.length ∧ tuple.length ≤ m.position ∧
      ∃ i ∈ indices, m.position ∈ i.positions
  | [], h => nomatch h
  | i :: is, h => by
    rw [insertAll] at h
    cases hi : i.insert tuple with
    | error m' =>
      rw [hi] at h
      cases h
      rcases Outcome.except_bind_error_iff.1 hi with hi | ⟨_, _, hi⟩
      · obtain ⟨length, short, hm⟩ := Index.misfit_of_project hi
        exact ⟨length, short, i, List.mem_cons_self .., hm⟩
      · cases hi
    | ok i' =>
      rw [hi] at h
      obtain ⟨length, short, j, hj, hm⟩ := misfit_of_insertAll h
      exact ⟨length, short, j, List.mem_cons_of_mem _ hj, hm⟩

namespace Store

variable {s s' : Store} {r : Relation} {tuple : Tuple}

/-- **No index is on a position that none was on before.** -/
def Settled (s s' : Store) : Prop :=
  ∀ r, ∀ i' ∈ (s'.extent r).indices, ∃ i ∈ (s.extent r).indices, i'.positions = i.positions

theorem Settled.refl (s : Store) : s.Settled s := fun _ i hi => ⟨i, hi, rfl⟩

theorem Settled.add (h : s.Settled s') : s.Settled (s'.add r tuple).1 := by
  by_cases hmem : tuple ∈ (s'.extent r).tuples
  · rw [add_of_mem hmem]
    exact h
  · rw [add_of_notMem hmem]
    intro r' i' hi'
    rw [extent_put] at hi'
    split at hi'
    · next same =>
      subst same
      have listed : i'.positions ∈ (s'.extent r).indices.map Index.positions :=
        Extent.positions_insertAll ▸ List.mem_map_of_mem hi'
      obtain ⟨j, hj, positions⟩ := List.mem_map.1 listed
      obtain ⟨i, hi, positions'⟩ := h r j hj
      exact ⟨i, hi, positions.symm.trans positions'⟩
    · exact h r' i' hi'

end Store

/-- A tuple that misfits is the clause's. -/
theorem PlannedClause.misfits_of_add {fns : Functions} {s s' : Store} {c : PlannedClause}
    {b : Bindings} {tuple : Tuple} {m : Misfit} (settled : s.Settled s')
    (value : Tuple.evaluate b fns c.head.args = .ok tuple)
    (misfit : (s'.add c.head.relation tuple).2 = .misfit m) : c.Misfits fns s m := by
  by_cases hmem : tuple ∈ (s'.extent c.head.relation).tuples
  · rw [Store.add_of_mem hmem] at misfit
    cases misfit
  · rw [Store.add_of_notMem hmem] at misfit
    dsimp only at misfit
    cases h : (Extent.insertAll tuple (s'.extent c.head.relation).indices).2 with
    | none =>
      rw [h] at misfit
      cases misfit
    | some m' =>
      rw [h] at misfit
      cases misfit
      obtain ⟨length, short, i', hi', hm⟩ := Extent.misfit_of_insertAll h
      obtain ⟨i, hi, positions⟩ := settled _ i' hi'
      exact ⟨b, tuple, value, length, short, i, hi, positions ▸ hm⟩

/-! ## Tasks -/

/-- **What may stop the work on a clause**: a fault that names one of its literals, once the rule is
around it, the crash of a native function, or a fact that an index of the store cannot take. -/
def Abort.Blames (fns : Functions) (s : Store) (c : PlannedClause) : Abort → Prop
  | .fault f => ∃ root, (Fault.inRule c.text f).Names fns c root
  | .crash message =>
    fns.Crashes message ∨ ∃ m : Misfit, message = some m.message ∧ c.Misfits fns s m

namespace Abort.Blames

variable {fns : Functions} {s : Store} {c : PlannedClause} {b : Bindings} {t : Term} {e : Abort}

/-- **A term raises a fault**, and the literal that it stands in goes around it. -/
theorem of_evaluate {literal : String × List Term} (hl : literal ∈ c.literals) (ht : t ∈ literal.2)
    (h : t.evaluate b fns = .error e) : (e.within (.inLiteral literal.1)).Blames fns s c := by
  cases e with
  | fault f => exact ⟨f, literal, hl, rfl, t, ht, b, h⟩
  | crash message => exact .inl (Abort.Native.of_evaluate h message rfl)

theorem of_step {slot : Slot} (hslot : slot ∈ c.body) (ht : t ∈ slot.step.terms)
    (h : t.evaluate b fns = .error e) : (e.within slot.step.blame).Blames fns s c :=
  of_evaluate (List.mem_cons_of_mem _ (List.mem_map.2 ⟨slot, hslot, rfl⟩)) ht h

theorem of_head (h : Tuple.evaluate b fns c.head.args = .error e) :
    (e.within c.head.blame).Blames fns s c := by
  obtain ⟨t, ht, h⟩ := Outcome.exists_of_mapM_error h
  exact of_evaluate (List.mem_cons_self ..) ht h

end Abort.Blames

namespace Work

variable {cx : Context} {task : Task}

/-- Work that fails without a trace is blamed on its step. -/
theorem blames_within {α : Type} {Q : α → Prop} {s : Store} {slot : Slot} {x : Work α}
    (hslot : slot ∈ task.clause.body) (ok : ∀ w a w', x w = .ok a w' → w'.world = w.world ∧ Q a)
    (error : ∀ w e w', x w = .error e w' → w' = w ∧
      ∃ t ∈ slot.step.terms, ∃ b : Bindings, t.evaluate b cx.functions = .error e) :
    Maintains (fun w => s.Settled w.world.store) (Abort.Blames cx.functions s task.clause) Q
      (within slot.step.blame x) := by
  refine fun w hw => ⟨fun a w' h => ?_, fun e w' h => ?_⟩
  · obtain ⟨world, ha⟩ := ok w a w' (within_ok_iff.1 h)
    have store : w'.world.store = w.world.store := congrArg World.store world
    exact ⟨(congrArg s.Settled store).mpr hw, ha⟩
  · obtain ⟨e', herror, rfl⟩ := within_error h
    obtain ⟨rfl, t, ht, b, h⟩ := error w e' w' herror
    exact ⟨hw, .of_step hslot ht h⟩

/-- **Whatever stops a stretch of a task** is blamed on the literal at work. -/
theorem blames_steady {stratum : Stratum} (s : Store) (failed : Bool)
    (confined : task.Confined (fun _ => True) stratum) :
    Steady cx task failed (fun w => s.Settled w.world.store)
      (Abort.Blames cx.functions s task.clause) fun _ _ => True where
  finds := by
    refine fun {slot goal rest} left positive => blames_within
      ((left.trans confined.remaining).subset (List.mem_cons_self ..)) (fun w ts w' ok => ?_)
      fun w e w' h => ?_
    · obtain ⟨rfl, _⟩ := matching_ok ok
      exact ⟨rfl, fun _ _ => trivial⟩
    · obtain ⟨rfl, h⟩ := matching_error h
      obtain ⟨t, ht, h⟩ := Goal.exists_of_key_error h
      rw [(step_of_positive positive).1]
      exact ⟨rfl, t, Step.mem_terms_lookup.2 ht, _, h⟩
  shares := fun _ _ _ => .of_sure .shareOut fun w first w' hw ok => by
    obtain ⟨_, _, idles⟩ := shareOut_ok ok
    exact ⟨idles.store ▸ hw, fun _ _ => trivial⟩
  takes := fun _ => .of_sure .take fun _ _ _ hw ok => ⟨(take_ok ok).store ▸ hw, trivial⟩
  performs := by
    refine fun {slot rest} left _ => blames_within
      ((left.trans confined.remaining).subset (List.mem_cons_self ..)) (fun w go w' ok => ?_)
      fun w e w' h => ?_
    · rw [perform_eq] at ok
      split at ok <;> cases ok <;> exact ⟨rfl, trivial⟩
    · obtain ⟨rfl, h⟩ := perform_error h
      obtain ⟨t, ht, h⟩ := Slot.exists_of_perform_error h
      exact ⟨rfl, t, ht, _, h⟩
  concludes := by
    refine fun w hw => ⟨fun _ w' ok => ⟨?_, trivial⟩, fun e w' h => ?_⟩
    · obtain ⟨tuple, _, ⟨_, idles⟩ | ⟨_, _, w₁, kept, idles⟩⟩ := conclude_ok ok
      · exact idles.store ▸ hw
      · have settled : s.Settled (w.world.store.add task.clause.head.relation tuple).1 := hw.add
        cases kept <;> exact idles.store ▸ settled
    · obtain ⟨rfl, e', none, rfl⟩ | ⟨tuple, m, value, misfit, rfl, rfl⟩ := conclude_error h
      · exact ⟨hw, .of_head none⟩
      · exact ⟨hw.add, .inr ⟨m, rfl, PlannedClause.misfits_of_add hw value misfit⟩⟩
  setsOff := .of_sure .setOff fun w _ w' hw ok => by
    obtain ⟨_, rfl⟩ | ⟨_, idles⟩ := setOff_ok ok
    · exact ⟨hw, trivial⟩
    · exact ⟨idles.store ▸ hw, trivial⟩
  records := .of_sure .record fun w _ w' hw ok => ⟨(record_ok ok).store ▸ hw, trivial⟩

end Work

/-- Every world is confined to terms. -/
theorem World.confined_true (world : World) : world.Confined fun _ => True :=
  ⟨fun _ _ _ _ _ => trivial, fun _ _ _ _ _ => trivial⟩

/-! ## Evaluations -/

/-- **A panic of a task**: in a native function, or in the store over a new fact of a clause that is
too short for an index. -/
def Context.Panics (cx : Context) (s : Store) (message : String) : Prop :=
  (∃ payload, cx.functions.Crashes payload ∧
    message = payload.getD "unknown panic payload") ∨
  ∃ c m, cx.stratum.Has c ∧ c.Misfits cx.functions s m ∧ message = m.message

/-- **What a fault may be**: a panic, or one that names its rule and its literal. -/
def Fault.Explained (f : Fault) (cx : Context) (s : Store) : Prop :=
  (∃ message, f = .panicked message ∧ cx.Panics s message) ∨
    ∃ c root, cx.stratum.Has c ∧ f.Names cx.functions c root

/-- **What stops the work on a clause is explained** once its rule is around it. -/
theorem Abort.Blames.explained {cx : Context} {s : Store} {c : PlannedClause} {e : Abort}
    (h : e.Blames cx.functions s c) (has : cx.stratum.Has c) :
    (e.within (.inRule c.text)).toFault.Explained cx s := by
  cases e with
  | fault f =>
    obtain ⟨root, names⟩ := h
    exact .inr ⟨c, root, has, names⟩
  | crash message =>
    refine .inl ⟨_, rfl, ?_⟩
    rcases h with crashes | ⟨m, rfl, misfits⟩
    · exact .inl ⟨message, crashes, rfl⟩
    · exact .inr ⟨c, m, has, misfits, rfl⟩

namespace Evaluation

variable {e e' : Evaluation} {a : Agenda Task World}

/-- **An agenda on which what has failed is explained**, and whose tasks will explain themselves. -/
structure Answers (e : Evaluation) (a : Agenda Task World) : Prop where
  waiting : ∀ t ∈ a.waiting, t.Confined (fun _ => True) e.context.stratum
  settled : e.world.store.Settled a.world.store
  explained : ∀ f, a.fault = some f → f.Explained e.context e.world.store

theorem Answers.runAt (h : e.Answers a) {i : Nat} {task : Task} (hi : a.waiting[i]? = some task) :
    e.Answers (a.runAt (Task.run e.context) i) := by
  have confined := h.waiting task (List.mem_iff_getElem?.2 ⟨i, hi⟩)
  obtain ⟨_, spawned⟩ := Work.run_confined a.fault.isSome
    ⟨fun _ _ _ _ _ _ _ _ _ => trivial, fun _ _ _ _ => trivial⟩ confined
    (World.confined_true a.world)
  obtain ⟨w, settled, world, _, blames⟩ := Task.run_maintains
    ((Work.blames_steady e.world.store a.fault.isSome confined).work fun _ _ _ _ => trivial)
    h.settled
  refine ⟨?_, ?_, fun f hf => ?_⟩
  · rw [Agenda.runAt, hi]
    exact List.forall_mem_append.2
      ⟨spawned, fun t ht => h.waiting t (List.mem_of_mem_eraseIdx ht)⟩
  · rw [Agenda.runAt, hi]
    exact (congrArg (fun w : World => e.world.store.Settled w.store) world).mpr settled
  · -- only the first fault is kept
    obtain hf | ⟨abort, result, rfl⟩ := Agenda.exists_abort_of_fault_runAt hi hf
    · exact h.explained f hf
    · obtain ⟨abort, blames, rfl⟩ := blames abort result
      exact blames.explained confined.has

/-- **Wherever an evaluation comes to**, what has failed is explained. -/
theorem answers_of_visits (visits : e.Visits a) : e.Answers a := by
  refine visits.invariant ⟨fun t ht => ?_, .refl _, nofun⟩ (fun _ _ _ hi h => h.runAt hi)
    fun b h _ _ => ⟨fun t ht => ?_, h.settled, nofun⟩
  · exact confined_base rfl t (List.mem_reverse.1 ht)
  · exact confined_seeded (World.confined_true b.world) t (List.mem_reverse.1 ht)

/-- **Every fault of an evaluation names its rule and its literal exactly once**, unless a task has
panicked: in a native function, or over a new fact that lacks a position of one of its relation's
indices.  Inside is what evaluating a term of the literal raised, and that is the fault's root. -/
theorem blame_of_run {schedule : Schedule} {budget : Nat} {f : Fault}
    (bare : e.context.functions.Bare) (h : e.run schedule budget = some (e', .error f)) :
    (∃ message, f = .panicked message ∧ e.context.Panics e.world.store message) ∨
      ∃ c root, e.context.stratum.Has c ∧ f.Names e.context.functions c root ∧ root.Bare ∧
        f.root = root := by
  obtain ⟨_, a, visits, _, _, told⟩ := exists_visit h
  refine ((answers_of_visits visits).explained f ((told f).1 rfl)).imp_right ?_
  rintro ⟨c, root, has, literal, hl, rfl, t, ht, b, raised⟩
  have rootBare := Term.bare_of_evaluate bare raised
  exact ⟨c, root, has, ⟨literal, hl, rfl, t, ht, b, raised⟩, rootBare, rootBare.root_eq⟩

end Evaluation

/-! ## Examples -/

namespace Quotients

/-- The divisors. -/
def p : Relation := ⟨"p", 1, .extensional⟩

/-- The quotients. -/
def h : Relation := ⟨"h", 1, .bottomUp⟩

/-- `h(div(1, x)) :- p(x).` -/
def rules : List Rule :=
  let x : Term := .var ⟨"x", 0⟩
  [{ head := { relation := h, args := [.call "div" [.int 1, x]] }
     body := [.atom { relation := p, args := [x] }] }]

/-- The database with its rule, and the fact `p(0)`. -/
def database : Database :=
  let db := (Database.addStratum {} rules).1
  { db with store := (db.store.add p [.int 0]).1 }

/-- The evaluation of its one stratum. -/
def evaluation : Evaluation := database.evaluation (database.strata.headD {})

/-- Dividing by zero is blamed on the head, and on the rule. -/
theorem exists_blame : ∃ e f, evaluation.run Policy.newest 10 = some (e, .error f) ∧
    f = .inRule "h(div(1, x)) :-\n\tp(x)." (.inLiteral "h(div(1, x))"
      (.function "div" "division by zero")) ∧
    ∃ c root, evaluation.context.stratum.Has c ∧ f.Names Functions.builtin c root ∧ root.Bare ∧
      f.root = root := by
  have ok : (evaluation.run Policy.newest 10).any (fun r => match r.2 with
      | .error f => f = .inRule "h(div(1, x)) :-\n\tp(x)." (.inLiteral "h(div(1, x))"
        (.function "div" "division by zero"))
      | .ok _ => false) = true := by decide +kernel
  obtain ⟨⟨e, f | _⟩, ran, ok⟩ := (Option.any_eq_true ..).1 ok
  · have found := of_decide_eq_true ok
    refine ⟨e, f, ran, found, ?_⟩
    rcases Evaluation.blame_of_run Functions.bare_builtin ran with ⟨m, panicked, _⟩ | named
    · cases found.symm.trans panicked
    · exact named
  · cases ok

end Quotients

namespace Oversized

theorem functions_eq : database.functions = Functions.builtin := by
  rw [database]
  split <;> exact Database.addStratum_functions

/-- **A fact that an index cannot take** stops an evaluation with a panic that no native function has
raised, and that names no rule. -/
theorem not_named : ¬∀ (e e' : Evaluation) (schedule : Schedule) (budget : Nat) (f : Fault),
    e.context.functions.Bare → e.run schedule budget = some (e', .error f) →
      (∃ payload, f = .panicked (payload.getD "unknown panic payload") ∧
        e.context.functions.Crashes payload) ∨
      ∃ c root, e.context.stratum.Has c ∧ f.Names e.context.functions c root := by
  intro claimed
  let e : Evaluation := database.evaluation (database.strata.headD {})
  have ok : (e.run Policy.newest 10).any (fun r => match r.2 with
      | .error f => f = .panicked "index out of bounds: the len is 1 but the index is 3"
      | .ok _ => false) = true := by decide +kernel
  have functions : e.context.functions = Functions.builtin := functions_eq
  obtain ⟨⟨e', f | _⟩, ran, ok⟩ := (Option.any_eq_true ..).1 ok
  · have found := of_decide_eq_true ok
    rcases claimed e e' _ _ f (functions ▸ Functions.bare_builtin) ran with
      ⟨payload, _, crashes⟩ | ⟨c, root, _, literal, _, named, _⟩
    · exact Functions.not_crashes_builtin payload (functions ▸ crashes)
    · cases found.symm.trans named
  · cases ok

end Oversized

end Datalog
