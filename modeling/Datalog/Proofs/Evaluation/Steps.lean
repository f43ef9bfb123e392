import Datalog.Proofs.Evaluation.Due
import Datalog.Proofs.Positions
import Datalog.Proofs.Loops

/-!
# Proofs/Evaluation/Steps — what one step comes to

A step that does not fail goes on where it leads, or stops where it leads nowhere
(`Work.Performed`), and a positive lookup finds what its goal finds among the tuples that the store
holds by then (`Work.matching_found`).  A negated goal can be asked at any time, since its relation
stays as it was.
-/

namespace Datalog

variable {cx : Context} {rules : List Rule} {start F G owed : Facts} {task : Task}
  {others : List Task}

/-! ## Stores on the way -/

/-- **A store on the way** from the facts at the start to those in the end. -/
structure Store.Between (start G : Facts) (s : Store) : Prop where
  built : s.Built
  above : start.Within s.Holds
  below : Facts.Within s.Holds G

/-- **Nothing is taken back.** -/
structure Worker.Grows (w w' : Worker) : Prop where
  store : Facts.Within (Store.Holds w.world.store) (Store.Holds w'.world.store)
  shaped : Store.Shaped w.world.store → Store.Shaped w'.world.store
  spawned : w.spawned ⊆ w'.spawned

namespace Worker.Grows

variable {w w' w'' : Worker}

theorem refl (w : Worker) : w.Grows w := ⟨.refl _, id, List.Subset.refl _⟩

theorem trans (h : w.Grows w') (h' : w'.Grows w'') : w.Grows w'' :=
  ⟨h.store.trans h'.store, h'.shaped ∘ h.shaped, List.Subset.trans h.spawned h'.spawned⟩

theorem of_idles (h : w.Idles w') : w.Grows w' := by
  refine ⟨?_, ?_, ?_⟩
  · rw [h.store]
    exact .refl _
  · rw [h.store]
    exact id
  · rw [h.spawned]
    exact List.Subset.refl _

end Worker.Grows

namespace Work

variable {failed : Bool} {w w' w'' : Worker} {pre rest : List Slot} {slot : Slot} {goal : Goal}
  {tuple : Tuple}

/-! ## Steps -/

/-- **What a step comes to** that is not a positive lookup.  It does not fail.  If the body goes on,
the worker has gone where the step leads; if not, the step leads nowhere and the worker has stayed. -/
structure Performed (s : Scene) (step : Step) (w : Worker) (go : Bool) (w' : Worker) : Prop where
  rebound : w' = { w with bindings := w'.bindings }
  stays : go = false → w' = w
  fine : ¬step.Fails s.functions w.bindings
  leads : go = true → step.Leads s w.bindings w'.bindings
  only : ∀ b, step.Leads s w.bindings b → go = true ∧ b = w'.bindings

namespace Performed

variable {s : Scene} {step : Step}

theorem goesOn {b : Bindings} (fine : ¬step.Fails s.functions w.bindings)
    (leads : step.Leads s w.bindings b) (only : ∀ b', step.Leads s w.bindings b' → b' = b) :
    Performed s step w true { w with bindings := b } where
  rebound := rfl
  stays h := absurd h.symm Bool.false_ne_true
  fine := fine
  leads _ := leads
  only b' h := ⟨rfl, only b' h⟩

theorem stops (fine : ¬step.Fails s.functions w.bindings)
    (nowhere : ∀ b, ¬step.Leads s w.bindings b) : Performed s step w false w where
  rebound := rfl
  stays _ := rfl
  fine := fine
  leads h := absurd h Bool.false_ne_true
  only b h := (nowhere b h).elim

/-- **A negated goal** asks for a relation that stays as it was. -/
theorem absence {g : Goal} {key : Key} {n : Option Nat} (negated : g.negated = true)
    (built : w.world.store.Built)
    (fixed : ∀ x, Store.Holds w.world.store g.relation x ↔ s.absent g.relation x)
    (suits : s.Suits g) (hkey : g.key s.functions w.bindings = .ok key) :
    Performed s (.lookup g) w (!w.world.store.hasMatch g.relation key n) w := by
  have hlen : ∀ x, Store.Holds w.world.store g.relation x → x.length = key.length := by
    intro x hx
    rw [suits.absent x ((fixed x).1 hx)]
    exact (Goal.key_eq_ok_iff.1 hkey).length_eq
  have found := built.indexed.hasMatch_iff (n := n) hlen
  have fine : ¬Step.Fails s.functions w.bindings (.lookup g) := by
    rintro ⟨t, ht, hn⟩
    obtain ⟨x, hx⟩ := Goal.exists_key_iff.1 ⟨key, hkey⟩ t ht
    rw [hx] at hn
    cases hn
  cases hmatch : w.world.store.hasMatch g.relation key n with
  | true =>
    refine .stops fine fun b leads => ?_
    obtain ⟨x, hx, agrees⟩ := found.1 hmatch
    obtain ⟨key', hkey', none, _⟩ := (Step.leads_absent_iff negated).1 leads
    obtain rfl := Except.ok.inj (hkey.symm.trans hkey')
    rw [none x ((fixed x).1 hx)] at agrees
    cases agrees
  | false =>
    refine .goesOn fine (.absent negated hkey fun x hx => ?_) fun b leads => ?_
    · refine Bool.eq_false_iff.2 fun agrees => Bool.eq_false_iff.1 hmatch ?_
      exact found.2 ⟨x, (fixed x).2 hx, agrees⟩
    · obtain ⟨_, _, _, same⟩ := (Step.leads_absent_iff negated).1 leads
      exact same

/-- A value binds the variable. -/
theorem assign {v : Var} {t : Term} {b : Bindings}
    (h : Step.performAssign s.functions v t w.bindings = .ok b) :
    Performed s (.assign v t) w true { w with bindings := b } := by
  obtain ⟨x, hx, _⟩ := Outcome.except_bind_ok_iff.1 h
  refine .goesOn (Term.value?_ne_none hx) (.assign h) fun b' leads => ?_
  cases leads with | assign h' =>
  exact Except.ok.inj (h'.symm.trans h)

/-- Two values are compared. -/
theorem check {l r : Term} {negated go : Bool}
    (h : Step.performCheck s.functions l r negated w.bindings = .ok go) :
    Performed s (.check l r negated) w go w := by
  obtain ⟨x, hx, rest⟩ := Outcome.except_bind_ok_iff.1 h
  obtain ⟨y, hy, _⟩ := Outcome.except_bind_ok_iff.1 rest
  have fine : ¬Step.Fails s.functions w.bindings (.check l r negated) :=
    fun fails => fails.elim (Term.value?_ne_none hx) (Term.value?_ne_none hy)
  cases go with
  | true =>
    refine .goesOn fine (.check h) fun b' leads => ?_
    cases leads with | check => rfl
  | false =>
    refine .stops fine fun b' leads => ?_
    cases leads with | check h' =>
    cases Except.ok.inj (h.symm.trans h')

/-- A value is taken apart, or is not of that form. -/
theorem destruct {t : Term} {f : String} {ys : List Var} {b : Option Bindings}
    (h : Step.performDestruct s.functions t f ys w.bindings = .ok b) :
    Performed s (.destruct t f ys) w b.isSome { w with bindings := b.getD w.bindings } := by
  obtain ⟨x, hx, _⟩ := Outcome.except_bind_ok_iff.1 h
  cases b with
  | some b =>
    refine .goesOn (Term.value?_ne_none hx) (.destruct h) fun b' leads => ?_
    cases leads with | destruct h' =>
    exact Option.some.inj (Except.ok.inj (h'.symm.trans h))
  | none =>
    refine .stops (Term.value?_ne_none hx) fun b' leads => ?_
    cases leads with | destruct h' =>
    cases Except.ok.inj (h.symm.trans h')

end Performed

/-- **A step other than a positive lookup** that is performed. -/
theorem perform_ok {go : Bool} (positive : slot.step.positiveGoal? = none)
    (built : w.world.store.Built)
    (fixed : ∀ g, slot.step = .lookup g → ∀ x, Store.Holds w.world.store g.relation x ↔
      start g.relation x)
    (suits : ∀ g, slot.step = .lookup g → (task.scene cx start F).Suits g)
    (ok : perform cx slot w = .ok go w') :
    Performed (task.scene cx start F) slot.step w go w' := by
  rw [perform] at ok
  obtain ⟨_, _, hget, ok⟩ := Outcome.bind_ok_iff.1 ok
  obtain ⟨rfl, rfl⟩ := Outcome.get_ok_iff.1 hget
  cases hstep : slot.step with
  | assign v t =>
    simp only [hstep] at ok
    obtain ⟨b, _, hdone, ok⟩ := Outcome.bind_ok_iff.1 ok
    obtain ⟨hb, rfl⟩ := ofExcept_ok_iff.1 hdone
    obtain ⟨_, _, hset, ok⟩ := Outcome.bind_ok_iff.1 ok
    obtain rfl := Outcome.set_ok_iff.1 hset
    obtain ⟨rfl, rfl⟩ := Outcome.pure_ok_iff.1 ok
    exact .assign hb
  | check l r negated =>
    simp only [hstep] at ok
    obtain ⟨hgo, rfl⟩ := ofExcept_ok_iff.1 ok
    exact .check hgo
  | destruct t f ys =>
    simp only [hstep] at ok
    obtain ⟨b, _, hdone, ok⟩ := Outcome.bind_ok_iff.1 ok
    obtain ⟨hb, rfl⟩ := ofExcept_ok_iff.1 hdone
    cases b with
    | some b =>
      obtain ⟨_, _, hset, ok⟩ := Outcome.bind_ok_iff.1 ok
      obtain rfl := Outcome.set_ok_iff.1 hset
      obtain ⟨rfl, rfl⟩ := Outcome.pure_ok_iff.1 ok
      exact Performed.destruct (s := task.scene cx start F) hb
    | none =>
      obtain ⟨rfl, rfl⟩ := Outcome.pure_ok_iff.1 ok
      exact Performed.destruct (s := task.scene cx start F) hb
  | lookup g =>
    simp only [hstep] at ok
    obtain ⟨key, _, hdone, ok⟩ := Outcome.bind_ok_iff.1 ok
    obtain ⟨hkey, rfl⟩ := ofExcept_ok_iff.1 hdone
    obtain ⟨rfl, rfl⟩ := Outcome.pure_ok_iff.1 ok
    exact .absence (negated_of_not_positive positive hstep) built (fixed g hstep) (suits g hstep)
      hkey

/-- **A positive lookup** finds what the goal finds among the tuples of the store, or of the
seed. -/
theorem matching_found {tuples : List Tuple} (built : w.world.store.Built)
    (ok : matching cx task slot goal w = .ok tuples w') :
    w = w' ∧ (∃ key, goal.key cx.functions w.bindings = .ok key) ∧
      ∀ x, x ∈ tuples ↔ (task.scene cx F w.world.store.Holds).Finds goal w.bindings x := by
  obtain ⟨rfl, key, hkey, rfl⟩ := matching_ok ok
  refine ⟨rfl, ⟨key, hkey⟩, fun x => ?_⟩
  have finds : (task.scene cx F w.world.store.Holds).Finds goal w.bindings x ↔
      (task.scene cx F w.world.store.Holds).Offers goal x ∧ key.agrees x = true := by
    constructor
    · rintro ⟨key', hkey', h⟩
      obtain rfl := Except.ok.inj (hkey.symm.trans hkey')
      exact h
    · exact fun h => ⟨key, hkey, h⟩
  rw [finds, Task.scene, Scene.Offers]
  cases hd : goal.delta <;> cases hs : task.seed
  · exact Listing.mem_lookup.trans built.indexed.mem_lookup_iff
  · exact Listing.mem_lookup.trans built.indexed.mem_lookup_iff
  · exact Listing.mem_lookup.trans built.indexed.mem_lookup_iff
  · exact List.mem_filter

end Work

end Datalog
