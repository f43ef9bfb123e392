import Datalog.Evaluation.Conclusion
import Datalog.Evaluation.Join
import Datalog.Proofs.Totality

/-!
# Proofs/Evaluation/Work — stretches of work that end well

What each stretch of a task's work leaves behind when it ends well.  `Worker.Idles` says that only
the bookkeeping changed.  An invariant that does not look at the bindings holds after a whole search
if concluding and handing on keep it (`Work.Keeps.search`).
-/

namespace Datalog

/-- **Nothing has changed but the bookkeeping**: echoed lines, recorded clauses, and all counters
but those of new facts and of rounds. -/
structure Worker.Idles (w w' : Worker) : Prop where
  store : w'.world.store = w.world.store
  delta : w'.world.delta = w.world.delta
  bindings : w'.bindings = w.bindings
  batch : w'.batch = w.batch
  spawned : w'.spawned = w.spawned
  newFacts : w'.world.counters.newFacts = w.world.counters.newFacts
  rounds : w'.world.counters.rounds = w.world.counters.rounds

namespace Worker.Idles

theorem refl (w : Worker) : w.Idles w := ⟨rfl, rfl, rfl, rfl, rfl, rfl, rfl⟩

theorem trans {w w' w'' : Worker} (h : w.Idles w') (h' : w'.Idles w'') : w.Idles w'' :=
  ⟨h'.store.trans h.store, h'.delta.trans h.delta, h'.bindings.trans h.bindings,
    h'.batch.trans h.batch, h'.spawned.trans h.spawned, h'.newFacts.trans h.newFacts,
    h'.rounds.trans h.rounds⟩

end Worker.Idles

/-- **What a step other than a positive lookup does to the bindings**; `none` gives up. -/
def Slot.perform (fns : Functions) (store : Store) (b : Bindings) (slot : Slot) :
    Except Abort (Option Bindings) :=
  match slot.step with
  | .assign v t => some <$> Step.performAssign fns v t b
  | .check l r negated =>
    (fun go => if go then some b else none) <$> Step.performCheck fns l r negated b
  | .destruct t f ys => Step.performDestruct fns t f ys b
  | .lookup goal =>
    match goal.key fns b with
    | .ok key => .ok (if store.hasMatch goal.relation key slot.index then none else some b)
    | .error e => .error e

/-- **A step fails** because of one of its terms. -/
theorem Slot.exists_of_perform_error {fns : Functions} {store : Store} {b : Bindings} {slot : Slot}
    {e : Abort} (h : slot.perform fns store b = .error e) :
    ∃ t ∈ slot.step.terms, t.evaluate b fns = .error e := by
  obtain ⟨step, index, split⟩ := slot
  cases step with
  | assign v t =>
    rcases Outcome.except_bind_error_iff.1 (Outcome.except_map_error_iff.1 h) with he | ⟨_, _, h⟩
    · exact ⟨t, List.mem_singleton.2 rfl, he⟩
    · cases h
  | check l r negated =>
    rcases Outcome.except_bind_error_iff.1 (Outcome.except_map_error_iff.1 h) with he | ⟨_, _, h⟩
    · exact ⟨l, List.mem_cons_self .., he⟩
    · rcases Outcome.except_bind_error_iff.1 h with he | ⟨_, _, h⟩
      · exact ⟨r, List.mem_cons_of_mem _ (List.mem_singleton.2 rfl), he⟩
      · cases h
  | destruct t f ys =>
    rcases Outcome.except_bind_error_iff.1 h with he | ⟨x, _, h⟩
    · exact ⟨t, List.mem_singleton.2 rfl, he⟩
    · cases x with
      | ctor g xs =>
        dsimp only at h
        split at h <;> cases h
      | var | lit | call => cases h
  | lookup g =>
    rw [perform] at h
    dsimp only at h
    split at h
    · cases h
    · next he =>
      cases h
      obtain ⟨t, ht, he⟩ := Goal.exists_of_key_error he
      exact ⟨t, Step.mem_terms_lookup.2 ht, he⟩

namespace Work

variable {cx : Context} {task : Task} {failed : Bool} {w w' : Worker}

/-! ## Small stretches -/

theorem ofExcept_ok_iff {α : Type} {result : Except Abort α} {a : α} :
    ofExcept result w = .ok a w' ↔ result = .ok a ∧ w = w' := by
  cases result with
  | ok b =>
    rw [ofExcept, Outcome.pure_ok_iff]
    simp
  | error abort =>
    rw [ofExcept, Outcome.throw_ok_iff]
    simp

theorem ofExcept_bind {α β : Type} {f : α → Work β} {a : α} :
    (ofExcept (.ok a) >>= f) w = f a w := rfl

theorem within_ok_iff {α : Type} {context : Fault → Fault} {work : Work α} {a : α} :
    within context work w = .ok a w' ↔ work w = .ok a w' := by
  rw [within]
  cases work w <;> simp

theorem count_ok {f : Summary → Summary} {u : Unit} (ok : count f w = .ok u w')
    (newFacts : ∀ c, (f c).newFacts = c.newFacts) (rounds : ∀ c, (f c).rounds = c.rounds) :
    w.Idles w' := by
  obtain rfl := Outcome.modify_ok_iff.1 ok
  exact ⟨rfl, rfl, rfl, rfl, rfl, newFacts _, rounds _⟩

theorem record_ok {clause : PlannedClause} {u : Unit} (ok : record cx clause w = .ok u w') :
    w.Idles w' := by
  rw [record] at ok
  split at ok
  · obtain rfl := Outcome.modify_ok_iff.1 ok
    exact ⟨rfl, rfl, rfl, rfl, rfl, rfl, rfl⟩
  · obtain ⟨_, rfl⟩ := Outcome.pure_ok_iff.1 ok
    exact .refl w

theorem echo_ok {tuple : Tuple} {u : Unit} (ok : echo cx task tuple w = .ok u w') : w.Idles w' := by
  rw [echo] at ok
  split at ok
  · obtain rfl := Outcome.modify_ok_iff.1 ok
    exact ⟨rfl, rfl, rfl, rfl, rfl, rfl, rfl⟩
  · obtain ⟨_, rfl⟩ := Outcome.pure_ok_iff.1 ok
    exact .refl w

/-- **Spawning puts a task in front.** -/
theorem spawn_ok {t : Task} {u : Unit} (ok : spawn t w = .ok u w') :
    ({ w with spawned := t :: w.spawned } : Worker).Idles w' := by
  obtain ⟨_, w₁, h₁, ok⟩ := Outcome.bind_ok_iff.1 ok
  obtain rfl := Outcome.modify_ok_iff.1 h₁
  exact count_ok ok (fun _ => rfl) fun _ => rfl

/-- Spawning one task for each entry. -/
theorem forM_spawn_ok {α : Type} {f : α → Task} {as : List α} {u : Unit}
    (ok : (as.forM fun a => spawn (f a)) w = .ok u w') :
    ({ w with spawned := (as.map f).reverse ++ w.spawned } : Worker).Idles w' := by
  induction as generalizing w with
  | nil =>
    obtain ⟨_, rfl⟩ := Outcome.pure_ok_iff.1 ok
    exact .refl w
  | cons a as ih =>
    obtain ⟨_, w₁, h₁, ok⟩ := Outcome.bind_ok_iff.1 ok
    have h := spawn_ok h₁
    have h' := ih ok
    refine ⟨h'.store.trans h.store, h'.delta.trans h.delta, h'.bindings.trans h.bindings,
      h'.batch.trans h.batch, h'.spawned.trans ?_, h'.newFacts.trans h.newFacts,
      h'.rounds.trans h.rounds⟩
    simp [h.spawned]

/-- **Performing a step** touches the bindings alone. -/
theorem perform_eq {slot : Slot} : perform cx slot w =
    match slot.perform cx.functions w.world.store w.bindings with
    | .ok (some b) => .ok true { w with bindings := b }
    | .ok none => .ok false w
    | .error e => .error e w := by
  obtain ⟨step, index, split⟩ := slot
  rw [Slot.perform, perform, Outcome.get_bind]
  cases step with
  | assign v t =>
    dsimp only
    cases Step.performAssign cx.functions v t w.bindings <;> rfl
  | check l r negated =>
    dsimp only
    rcases Step.performCheck cx.functions l r negated w.bindings with e | (_ | _) <;> rfl
  | destruct t f ys =>
    dsimp only
    rcases Step.performDestruct cx.functions t f ys w.bindings with e | (_ | _) <;> rfl
  | lookup goal =>
    dsimp only
    cases goal.key cx.functions w.bindings with
    | error e => rfl
    | ok key =>
      rw [ofExcept_bind]
      dsimp only
      cases w.world.store.hasMatch goal.relation key index <;> rfl

/-- What a lookup finds. -/
theorem matching_ok {slot : Slot} {goal : Goal} {tuples : List Tuple}
    (ok : matching cx task slot goal w = .ok tuples w') : w = w' ∧
      ∃ key, goal.key cx.functions w.bindings = .ok key ∧
        tuples = match goal.delta, task.seed with
          | true, some seed => seed.filter key.agrees
          | _, _ => cx.listing.lookup w.world.store goal.relation key slot.index := by
  obtain ⟨_, _, hget, ok⟩ := Outcome.bind_ok_iff.1 ok
  obtain ⟨rfl, rfl⟩ := Outcome.get_ok_iff.1 hget
  obtain ⟨key, w₂, hlook, ok⟩ := Outcome.bind_ok_iff.1 ok
  obtain ⟨hkey, rfl⟩ := ofExcept_ok_iff.1 hlook
  cases hd : goal.delta <;> cases hs : task.seed
  all_goals
    simp only [hd, hs] at ok ⊢
    obtain ⟨rfl, rfl⟩ := Outcome.pure_ok_iff.1 ok
    exact ⟨rfl, key, hkey, rfl⟩

/-- A lookup fails with its key. -/
theorem matching_error {slot : Slot} {goal : Goal} {e : Abort}
    (h : matching cx task slot goal w = .error e w') :
    w' = w ∧ goal.key cx.functions w.bindings = .error e := by
  rw [matching, Outcome.get_bind] at h
  cases hkey : goal.key cx.functions w.bindings with
  | error e' =>
    rw [hkey] at h
    cases h
    exact ⟨rfl, rfl⟩
  | ok key =>
    rw [hkey, ofExcept_bind] at h
    exfalso
    revert h
    cases goal.delta <;> cases task.seed <;> exact Outcome.pure_error_iff.1

/-- Any other step fails where the bindings fail it. -/
theorem perform_error {slot : Slot} {e : Abort} (h : perform cx slot w = .error e w') :
    w' = w ∧ slot.perform cx.functions w.world.store w.bindings = .error e := by
  rw [perform_eq] at h
  split at h
  · cases h
  · cases h
  · next hperform =>
    cases h
    exact ⟨rfl, hperform⟩

/-- **Batches are the list in pieces.** -/
theorem flatten_batches {α : Type} (size : Nat) (xs : List α) : (batches size xs).flatten = xs := by
  have pieces (n : Nat) : ∀ k, ((List.range k).map fun i => (xs.drop (i * n)).take n).flatten =
      xs.take (k * n) := by
    intro k
    induction k with
    | zero => simp
    | succ k ih =>
      rw [List.range_succ, List.map_append, List.flatten_append, ih, Nat.succ_mul, List.take_add]
      simp
  have hpos : 0 < max size 1 := Nat.lt_of_lt_of_le Nat.one_pos (Nat.le_max_right ..)
  rw [batches, pieces]
  refine List.take_of_length_le ?_
  have := Nat.div_add_mod (xs.length + max size 1 - 1) (max size 1)
  have := Nat.mod_lt (xs.length + max size 1 - 1) hpos
  rw [Nat.mul_comm]
  omega

/-- The task that goes on with some of the tuples found. -/
def suffix (task : Task) (goal : Goal) (rest : List Slot) (bindings : Bindings)
    (tuples : List Tuple) : Task :=
  { task with resumption := some { goal, tuples, rest, bindings } }

/-- **What is shared out**: all tuples but those of the first batch, to tasks of their own. -/
theorem shareOut_ok {slot : Slot} {goal : Goal} {rest : List Slot} {tuples first : List Tuple}
    (ok : shareOut cx task slot goal rest tuples w = .ok first w') :
    ∃ others : List (List Tuple), tuples = first ++ others.flatten ∧
      ({ w with spawned := (others.map (suffix task goal rest w.bindings)).reverse ++ w.spawned } :
        Worker).Idles w' := by
  have pieces := flatten_batches (batchSize cx slot) tuples
  rw [shareOut] at ok
  cases hbatches : batches (batchSize cx slot) tuples with
  | nil =>
    rw [hbatches] at ok pieces
    obtain ⟨rfl, rfl⟩ := Outcome.pure_ok_iff.1 ok
    exact ⟨[], pieces.symm, .refl w⟩
  | cons batch others =>
    rw [hbatches] at ok pieces
    obtain ⟨_, _, hget, ok⟩ := Outcome.bind_ok_iff.1 ok
    obtain ⟨rfl, rfl⟩ := Outcome.get_ok_iff.1 hget
    obtain ⟨_, w₁, hspawn, ok⟩ := Outcome.bind_ok_iff.1 ok
    obtain ⟨rfl, rfl⟩ := Outcome.pure_ok_iff.1 ok
    exact ⟨others, pieces.symm, forM_spawn_ok (f := suffix task goal rest w.bindings) hspawn⟩

/-- Taking a tuple binds it. -/
theorem take_ok {goal : Goal} {tuple : Tuple} {u : Unit} (ok : take cx goal tuple w = .ok u w') :
    ({ w with bindings := goal.bind tuple w.bindings } : Worker).Idles w' := by
  rw [take] at ok
  split at ok
  · obtain ⟨_, w₁, hcount, ok⟩ := Outcome.bind_ok_iff.1 ok
    obtain rfl := Outcome.modify_ok_iff.1 ok
    have h := count_ok hcount (fun _ => rfl) fun _ => rfl
    exact { h with bindings := congrArg (goal.bind tuple) h.bindings }
  · obtain rfl := Outcome.modify_ok_iff.1 ok
    exact .refl _

/-! ## Stretches that never fail -/

/-- **Work that always ends well.** -/
def Sure {α : Type} (work : Work α) : Prop := ∀ w e w', work w ≠ .error e w'

namespace Sure

variable {α β : Type}

theorem pure {a : α} : Sure (Pure.pure a) := fun _ _ _ h => Outcome.pure_error_iff.1 h

theorem got : Sure (get : Work Worker) := fun _ _ _ h => nomatch h

theorem changed {f : Worker → Worker} : Sure (modify f : Work PUnit) := fun _ _ _ h => nomatch h

theorem bind {x : Work α} {f : α → Work β} (hx : Sure x) (hf : ∀ a, Sure (f a)) :
    Sure (x >>= f) := by
  intro w e w' h
  rcases Outcome.bind_error_iff.1 h with h | ⟨a, w₁, _, h⟩
  · exact hx w e w' h
  · exact hf a w₁ e w' h

theorem forM {x : β → Work Unit} (hx : ∀ b, Sure (x b)) : ∀ {bs : List β}, Sure (bs.forM x)
  | [] => pure
  | b :: _ => bind (hx b) fun _ => forM hx

theorem ite {p : Prop} [Decidable p] {x y : Work α} (hx : Sure x) (hy : Sure y) :
    Sure (if p then x else y) := by
  split
  · exact hx
  · exact hy

theorem count {f : Summary → Summary} : Sure (count f) := changed

theorem spawn {t : Task} : Sure (spawn t) := bind changed fun _ => count

theorem record {clause : PlannedClause} : Sure (record cx clause) := ite changed pure

theorem take {goal : Goal} {tuple : Tuple} : Sure (take cx goal tuple) := by
  rw [Work.take]
  split
  · exact bind count fun _ => changed
  · exact changed

theorem setOff : Sure (setOff cx task failed) := by
  rw [Work.setOff]
  refine bind got fun w => ?_
  dsimp only
  split
  · exact pure
  · exact bind changed fun _ => forM fun _ => spawn

theorem keep {tuple : Tuple} : Sure (keep cx task failed tuple) := by
  rw [Work.keep]
  refine ite (ite (bind changed fun _ => bind got fun _ => ite setOff pure) changed) pure

theorem echo {tuple : Tuple} : Sure (echo cx task tuple) := ite changed pure

theorem shareOut {slot : Slot} {goal : Goal} {rest : List Slot} {tuples : List Tuple} :
    Sure (shareOut cx task slot goal rest tuples) := by
  rw [Work.shareOut]
  split
  · exact pure
  · exact bind got fun _ => bind (forM fun _ => spawn) fun _ => pure

/-- What fails after work that does not, fails on its own. -/
theorem bind_error {x : Work α} {f : α → Work β} (hx : Sure x) {e : Abort}
    (h : (x >>= f) w = .error e w') : ∃ a w₁, x w = .ok a w₁ ∧ f a w₁ = .error e w' :=
  (Outcome.bind_error_iff.1 h).resolve_left (hx w e w')

end Sure

theorem within_error {α : Type} {context : Fault → Fault} {work : Work α} {e : Abort}
    (h : within context work w = .error e w') :
    ∃ e', work w = .error e' w' ∧ e = e'.within context := by
  rw [within] at h
  cases hw : work w with
  | ok a v =>
    rw [hw] at h
    cases h
  | error e' v =>
    rw [hw] at h
    cases h
    exact ⟨e', rfl, rfl⟩

/-! ## Invariants -/

/-- **Work that keeps an invariant** whenever it ends well. -/
def Keeps {α : Type} (I : Worker → Prop) (work : Work α) : Prop :=
  ∀ w a w', I w → work w = .ok a w' → I w'

/-- An invariant that looks neither at the bindings nor at the bookkeeping. -/
structure Blind (I : Worker → Prop) : Prop where
  idles : ∀ {w w' : Worker}, w.Idles w' → I w → I w'
  bindings : ∀ {w : Worker} (b : Bindings), I w → I { w with bindings := b }

namespace Keeps

variable {α β : Type} {I : Worker → Prop}

theorem bind {x : Work α} {f : α → Work β} (hx : Keeps I x) (hf : ∀ a, Keeps I (f a)) :
    Keeps I (x >>= f) := by
  intro w b w'' hw ok
  obtain ⟨a, w', h, ok⟩ := Outcome.bind_ok_iff.1 ok
  exact hf a w' b w'' (hx w a w' hw h) ok

theorem pure {a : α} : Keeps I (Pure.pure a) := by
  intro w b w' hw ok
  obtain ⟨_, rfl⟩ := Outcome.pure_ok_iff.1 ok
  exact hw

theorem within {context : Fault → Fault} {x : Work α} (hx : Keeps I x) :
    Keeps I (within context x) :=
  fun w a w' hw ok => hx w a w' hw (within_ok_iff.1 ok)

theorem ite {p : Prop} [Decidable p] {x y : Work α} (hx : Keeps I x) (hy : Keeps I y) :
    Keeps I (if p then x else y) := by
  split
  · exact hx
  · exact hy

theorem forM {x : β → Work Unit} {bs : List β} (hx : ∀ b, Keeps I (x b)) :
    Keeps I (bs.forM x) := by
  induction bs with
  | nil => exact .pure
  | cons b bs ih => exact .bind (hx b) fun _ => ih

theorem matching {slot : Slot} {goal : Goal} : Keeps I (matching cx task slot goal) := by
  intro w tuples w' hw ok
  obtain ⟨rfl, _⟩ := matching_ok ok
  exact hw

variable (blind : Blind I)
include blind

theorem record {clause : PlannedClause} : Keeps I (record cx clause) :=
  fun _ _ _ hw ok => blind.idles (record_ok ok) hw

theorem take {goal : Goal} {tuple : Tuple} : Keeps I (take cx goal tuple) :=
  fun _ _ _ hw ok => blind.idles (take_ok ok) (blind.bindings _ hw)

theorem perform {slot : Slot} : Keeps I (perform cx slot) := by
  intro w go w' hw ok
  rw [perform_eq] at ok
  split at ok
  · cases ok
    exact blind.bindings _ hw
  · cases ok
    exact hw
  · cases ok

variable (suffixes : ∀ (w : Worker) (goal : Goal) (rest : List Slot) (bindings : Bindings)
    (others : List (List Tuple)), I w →
    I { w with spawned := (others.map (suffix task goal rest bindings)).reverse ++ w.spawned })
include suffixes

theorem shareOut {slot : Slot} {goal : Goal} {rest : List Slot} {tuples : List Tuple} :
    Keeps I (shareOut cx task slot goal rest tuples) := by
  intro w first w' hw ok
  obtain ⟨others, _, h⟩ := shareOut_ok ok
  exact blind.idles h (suffixes w goal rest w.bindings others hw)

/-- **A search keeps the invariant** if what it does for each match keeps it. -/
theorem search {found : Work Unit} (hfound : Keeps I found) {slots : List Slot} :
    Keeps I (search cx task found slots) := by
  induction slots with
  | nil => exact hfound
  | cons slot rest ih =>
    rw [Work.search]
    split
    · refine .bind (.within .matching) fun tuples => ?_
      refine .bind (.shareOut blind suffixes) fun first => ?_
      exact .forM fun tuple => .bind (.take blind) fun _ => ih
    · exact .bind (.within (.perform blind)) fun _ => .ite ih .pure

end Keeps

end Work

end Datalog
