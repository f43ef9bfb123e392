import Datalog.Proofs.Evaluation.Steps

/-!
# Proofs/Evaluation/Search — what a search derives

While other tasks extend the store, a search reads whatever the store holds when it comes to a
goal.  That lies between the facts at the start and those in the end, and this is all that is
needed: what the search derives belongs to the facts in the end (`Work.Safe`), and whatever was
due from the facts that it started with is stored afterwards or due in a task that it has made
(`Work.Settled`).
-/

namespace Datalog

variable {cx : Context} {rules : List Rule} {start F G owed : Facts} {task : Task}
  {others : List Task}

namespace Work

variable {failed : Bool} {w w' w'' : Worker} {pre rest : List Slot} {slot : Slot} {goal : Goal}
  {tuple : Tuple}

/-! ## Workers on the way -/

/-- Tuples that are new and have not set off their clauses yet. -/
def Pending (task : Task) (w : Worker) : Facts := fun r x =>
  (r = task.clause.head.relation ∧ x ∈ w.batch) ∨ x ∈ (w.world.delta.get? r).getD []

/-- **A worker is safe**: its store lies between the start and the end, the tasks that it has made
are sound, what is pending is stored, and everything derivable is accounted for. -/
structure Safe (cx : Context) (rules : List Rule) (start G owed : Facts) (task : Task)
    (others : List Task) (w : Worker) : Prop where
  store : Store.Between start G w.world.store
  spawned : ∀ t ∈ w.spawned, t.Sound cx start G
  pending : (Pending task w).Within (Store.Holds w.world.store)
  covered : Covered cx rules start (Store.Holds w.world.store) owed (w.spawned ++ others)
    (Pending task w)

/-- **The tuple is settled**: it is stored, or due in a task that has been made. -/
def Settled (cx : Context) (start F : Facts) (task : Task) (w : Worker) (tuple : Tuple) : Prop :=
  Store.Holds w.world.store task.clause.head.relation tuple ∨
    ∃ t ∈ w.spawned, t.clause.head.relation = task.clause.head.relation ∧ t.Due cx start F tuple

theorem Settled.mono (h : Settled cx start F task w tuple) (grows : w.Grows w') :
    Settled cx start F task w' tuple := by
  refine h.imp (grows.store _ _) ?_
  rintro ⟨t, ht, hr, due⟩
  exact ⟨t, grows.spawned ht, hr, due⟩

namespace Safe

/-- Bookkeeping makes no difference. -/
theorem of_idles (h : Safe cx rules start G owed task others w) (idles : w.Idles w') :
    Safe cx rules start G owed task others w' := by
  have pending : Pending task w' = Pending task w := by
    funext r x
    simp only [Pending, idles.batch, idles.delta]
  refine ⟨?_, ?_, ?_, ?_⟩
  · rw [idles.store]
    exact h.store
  · rw [idles.spawned]
    exact h.spawned
  · rw [pending, idles.store]
    exact h.pending
  · rw [pending, idles.store, idles.spawned]
    exact h.covered

/-- Nor do the bindings. -/
theorem rebind (h : Safe cx rules start G owed task others w) (b : Bindings) :
    Safe cx rules start G owed task others { w with bindings := b } :=
  ⟨h.store, h.spawned, h.pending, h.covered⟩

/-- For a relation that the stratum does not derive the store is what it was. -/
theorem holds_iff (h : Safe cx rules start G owed task others w) (ends : cx.Ends start G)
    {r : Relation} (hr : ¬cx.stratum.Heads r) (x : Tuple) :
    Store.Holds w.world.store r x ↔ start r x :=
  ⟨fun hx => ends.fixed r x hr (h.store.below r x hx), h.store.above r x⟩

/-- **Setting off** the batch. -/
theorem fired (h : Safe cx rules start G owed task others w)
    (diff : cx.stratum.Differential cx.functions rules start) (ends : cx.Ends start G) :
    Safe cx rules start G owed task others { w with
      batch := [], spawned := (task.fired cx w.batch).reverse ++ w.spawned } := by
  refine ⟨h.store, fun t ht => ?_, fun r x hx => ?_, ?_⟩
  · rcases List.mem_append.1 ht with ht | ht
    · obtain ⟨v, hv, rfl⟩ := List.mem_map.1 (List.mem_reverse.1 ht)
      refine Task.sound_of_fired diff ends hv (fun x hx => ?_) _
      exact h.store.below _ x (h.pending _ x (.inl ⟨rfl, hx⟩))
    · exact h.spawned t ht
  · rcases hx with ⟨_, hx⟩ | hx
    · cases hx
    · exact h.pending r x (.inr hx)
  · refine h.covered.setOff (fun r x hx v hv => ?_) ?_
    · rcases hx with ⟨rfl, hx⟩ | hx
      · refine .inr ⟨{ clause := v, seed := some w.batch, generation := task.generation + 1 }, ?_, rfl,
          rfl, w.batch, rfl, hx⟩
        exact List.mem_append_left _ (List.mem_append_left _ (List.mem_reverse.2
          (List.mem_map_of_mem hv)))
      · exact .inl (.inr hx)
    · rw [List.append_assoc]
      exact List.subset_append_right ..

theorem setOff (h : Safe cx rules start G owed task others w)
    (diff : cx.stratum.Differential cx.functions rules start) (ends : cx.Ends start G) {u : Unit}
    (ok : setOff cx task failed w = .ok u w') :
    Safe cx rules start G owed task others w' ∧ w.Grows w' := by
  rcases setOff_ok ok with ⟨_, rfl⟩ | ⟨_, idles⟩
  · exact ⟨h, .refl w⟩
  · have grows : w.Grows { w with
        batch := [], spawned := (task.fired cx w.batch).reverse ++ w.spawned } :=
      ⟨.refl _, id, List.subset_append_right ..⟩
    exact ⟨(h.fired diff ends).of_idles idles, grows.trans (.of_idles idles)⟩

/-- **A new tuple** that is pending afterwards, if it sets anything off. -/
theorem entered (h : Safe cx rules start G owed task others w)
    (diff : cx.stratum.Differential cx.functions rules start) (ends : cx.Ends start G)
    (heads : cx.stratum.Heads task.clause.head.relation) (held : G task.clause.head.relation tuple)
    (fits : ∀ m, (w.world.store.add task.clause.head.relation tuple).2 ≠ .misfit m)
    (store : w'.world.store = (w.world.store.add task.clause.head.relation tuple).1)
    (spawned : w'.spawned = w.spawned) (pending : (Pending task w).Within (Pending task w'))
    (only : ∀ r x, Pending task w' r x → Pending task w r x ∨
      r = task.clause.head.relation ∧ x = tuple)
    (waits : ∀ v ∈ cx.stratum.firedBy task.clause.head.relation,
      Pending task w' task.clause.head.relation tuple) :
    Safe cx rules start G owed task others w' := by
  have between : Store.Between start G w'.world.store := by
    rw [store]
    refine ⟨h.store.built.add fits, fun r x hx => Store.holds_add_iff.2 (.inl (h.store.above r x hx)),
      fun r x hx => ?_⟩
    rcases Store.holds_add_iff.1 hx with hx | ⟨rfl, rfl⟩
    · exact h.store.below r x hx
    · exact held
  have grows : Facts.Within (Store.Holds w.world.store) (Store.Holds w'.world.store) := by
    rw [store]
    exact fun r x hx => Store.holds_add_iff.2 (.inl hx)
  refine ⟨between, ?_, fun r x hx => ?_, ?_⟩
  · rw [spawned]
    exact h.spawned
  · rcases only r x hx with hx | ⟨rfl, rfl⟩
    · exact grows r x (h.pending r x hx)
    · rw [store]
      exact Store.holds_add_iff.2 (.inr ⟨rfl, rfl⟩)
  · rw [spawned]
    refine h.covered.enter diff heads (fun r x hx => ends.measured r x (between.below r x hx)) grows
      (fun r x hx => ?_) pending waits
    rw [store] at hx
    exact Store.holds_add_iff.1 hx

/-- **A new tuple that is kept**, in the batch, in the delta or not at all. -/
theorem keep {w₁ : Worker} (h : Safe cx rules start G owed task others w)
    (diff : cx.stratum.Differential cx.functions rules start) (ends : cx.Ends start G)
    (heads : cx.stratum.Heads task.clause.head.relation) (held : G task.clause.head.relation tuple)
    (fits : ∀ m, (w.world.store.add task.clause.head.relation tuple).2 ≠ .misfit m)
    (kept : Kept cx task tuple (Work.entered task tuple w) w₁) :
    Safe cx rules start G owed task others w₁ ∧ w.Grows w₁ ∧ w₁.bindings = w.bindings ∧
      w₁.world.store = (w.world.store.add task.clause.head.relation tuple).1 := by
  have stored : Facts.Within (Store.Holds w.world.store)
      (Store.Holds (w.world.store.add task.clause.head.relation tuple).1) :=
    fun r x hx => Store.holds_add_iff.2 (.inl hx)
  have batched : Safe cx rules start G owed task others
      { Work.entered task tuple w with batch := w.batch ++ [tuple] } := by
    refine h.entered diff ends heads held fits rfl rfl (fun r x hx => ?_) (fun r x hx => ?_)
      fun v _ => .inl ⟨rfl, List.mem_append_right _ (List.mem_singleton.2 rfl)⟩
    · exact hx.imp_left fun hx => ⟨hx.1, List.mem_append_left _ hx.2⟩
    · rcases hx with ⟨rfl, hx⟩ | hx
      · rcases List.mem_append.1 hx with hx | hx
        · exact .inl (.inl ⟨rfl, hx⟩)
        · exact .inr ⟨rfl, List.mem_singleton.1 hx⟩
      · exact .inl (.inr hx)
  cases kept with
  | idle inert =>
    refine ⟨h.entered diff ends heads held fits rfl rfl (.refl _) (fun r x hx => .inl hx)
      fun v hv => ?_, ⟨stored, Store.Shaped.add, List.Subset.refl _⟩, rfl, rfl⟩
    have none : cx.stratum.recursive.get? task.clause.head.relation = none := by
      by_contra hn
      obtain ⟨cs, hcs⟩ := Option.ne_none_iff_exists'.1 hn
      rw [Assoc.contains_iff.2 ⟨cs, hcs⟩] at inert
      cases inert
    rw [Stratum.firedBy, none] at hv
    cases hv
  | batched => exact ⟨batched, ⟨stored, Store.Shaped.add, List.Subset.refl _⟩, rfl, rfl⟩
  | fired =>
    have grows := List.subset_append_right ((task.fired cx (w.batch ++ [tuple])).reverse) w.spawned
    exact ⟨batched.fired diff ends, ⟨stored, Store.Shaped.add, grows⟩, rfl, rfl⟩
  | delayed =>
    refine ⟨h.entered diff ends heads held fits rfl rfl (fun r x hx => ?_) (fun r x hx => ?_)
      fun v _ => .inr ?_, ⟨stored, Store.Shaped.add, List.Subset.refl _⟩, rfl, rfl⟩
    · refine hx.imp_right fun hx => ?_
      dsimp only
      rw [Assoc.get?_alter]
      split
      · next hr => exact List.mem_cons_of_mem _ (hr ▸ hx)
      · exact hx
    · rcases hx with hx | hx
      · exact .inl (.inl hx)
      · dsimp only at hx
        rw [Assoc.get?_alter] at hx
        split at hx
        · next hr =>
          rcases List.mem_cons.1 hx with rfl | hx
          · exact .inr ⟨hr.symm, rfl⟩
          · exact .inl (.inr (hr ▸ hx))
        · exact .inl (.inr hx)
    · dsimp only
      rw [Assoc.get?_alter, if_pos rfl]
      exact List.mem_cons_self ..

/-- **Concluding** is safe if the head's values belong to the facts in the end; afterwards they are
stored. -/
theorem conclude (h : Safe cx rules start G owed task others w)
    (diff : cx.stratum.Differential cx.functions rules start) (ends : cx.Ends start G)
    (heads : cx.stratum.Heads task.clause.head.relation)
    (derives : ∀ tuple, Tuple.evaluate w.bindings cx.functions task.clause.head.args = .ok tuple →
      G task.clause.head.relation tuple) {u : Unit}
    (ok : conclude cx task failed w = .ok u w') :
    Safe cx rules start G owed task others w' ∧ w.Grows w' ∧ w'.bindings = w.bindings ∧
      ∃ tuple, Tuple.evaluate w.bindings cx.functions task.clause.head.args = .ok tuple ∧
        Store.Holds w'.world.store task.clause.head.relation tuple := by
  obtain ⟨tuple, value, ⟨old, idles⟩ | ⟨_, fits, w₁, kept, idles⟩⟩ := conclude_ok ok
  · refine ⟨h.of_idles idles, .of_idles idles, idles.bindings, tuple, value, ?_⟩
    rw [idles.store]
    exact old
  · obtain ⟨safe, grows, bindings, store⟩ :=
      h.keep diff ends heads (derives tuple value) fits kept
    refine ⟨safe.of_idles idles, grows.trans (.of_idles idles), idles.bindings.trans bindings,
      tuple, value, ?_⟩
    rw [idles.store, store]
    exact Store.holds_add_iff.2 (.inr ⟨rfl, rfl⟩)

end Safe

/-! ## Searching -/

/-- **What has become of a stretch of work**: the worker is still safe, what was bound before has
stayed, and what was due is settled. -/
structure Went (cx : Context) (rules : List Rule) (start F G owed : Facts) (task : Task)
    (others : List Task) (known : List Var) (due : Tuple → Prop) (w w' : Worker) : Prop where
  safe : Safe cx rules start G owed task others w'
  grows : w.Grows w'
  agree : Bindings.Agree known w'.bindings w.bindings
  settled : ∀ x, due x → Settled cx start F task w' x

section

variable (diff : cx.stratum.Differential cx.functions rules start) (ends : cx.Ends start G)
  (sound : task.Sound cx start G) (hF : F.Within G)

/-- **What a positive lookup finds** is found in the end as well, and what is due there is due for
one of the tuples. -/
theorem matching_went {tuples : List Tuple}
    (safe : Safe cx rules start G owed task others w) (low : F.Within (Store.Holds w.world.store))
    (positive : slot.step.positiveGoal? = some goal)
    (ok : matching cx task slot goal w = .ok tuples w') :
    w = w' ∧ (∀ x ∈ tuples, (task.scene cx start G).Finds goal w.bindings x) ∧ ∀ steps tuple,
      task.clause.head.Due (task.scene cx start F) (slot.step :: steps) w.bindings tuple →
        ∃ y ∈ tuples, task.clause.head.Due (task.scene cx start F) steps (goal.bind y w.bindings)
          tuple := by
  obtain ⟨hstep, hn⟩ := step_of_positive positive
  obtain ⟨same, ⟨key, hkey⟩, found⟩ := matching_found (F := start) safe.store.built ok
  refine ⟨same, fun x hx => ((found x).1 hx).mono (task.scene_within safe.store.below),
    fun steps tuple due => ?_⟩
  rw [hstep] at due
  rcases Head.Due.cons_iff.1 due with ⟨t, ht, hnone⟩ | ⟨c, leads, due⟩
  · obtain ⟨x, hx⟩ := Goal.exists_key_iff.1 ⟨key, hkey⟩ t ht
    rw [show t.value? w.bindings.get? cx.functions = none from hnone] at hx
    cases hx
  · obtain ⟨key, hkey, y, ⟨offered, agrees⟩, rfl⟩ := (Step.leads_found_iff hn).1 leads
    refine ⟨y, (found y).2 ?_, due⟩
    exact Scene.Finds.mono (task.scene_within low) ⟨key, hkey, offered, agrees⟩

include ends sound

/-- **What any other step does.** -/
theorem perform_went {go : Bool}
    (safe : Safe cx rules start G owed task others w) (hF : F.Within G)
    (body : task.clause.body = pre ++ slot :: rest)
    (positive : slot.step.positiveGoal? = none)
    (reached : task.Reached cx start G pre w.bindings)
    (ok : perform cx slot w = .ok go w') :
    Safe cx rules start G owed task others w' ∧ w.Grows w' ∧
      Bindings.Agree (before pre) w'.bindings w.bindings ∧
      (go = true → task.Reached cx start G (pre ++ [slot]) w'.bindings) ∧ ∀ steps tuple,
        task.clause.head.Due (task.scene cx start F) (slot.step :: steps) w.bindings tuple →
          go = true ∧ task.clause.head.Due (task.scene cx start F) steps w'.bindings tuple := by
  have hmem := step_mem body
  have fixed (g : Goal) (hg : slot.step = .lookup g) (x : Tuple) :
      Store.Holds w.world.store g.relation x ↔ start g.relation x :=
    safe.holds_iff ends (sound.static g (hg ▸ hmem) (negated_of_not_positive positive hg)) x
  have suits (g : Goal) (hg : slot.step = .lookup g) := sound.suited_of_within hF g (hg ▸ hmem)
  have performed := perform_ok positive safe.store.built fixed suits ok
  have grows : w.Grows w' := by
    rw [performed.rebound]
    exact ⟨.refl _, id, List.Subset.refl _⟩
  have safe' : Safe cx rules start G owed task others w' := by
    rw [performed.rebound]
    exact safe.rebind _
  refine ⟨safe', grows, ?_, fun hgo => ?_, fun steps tuple due => ?_⟩
  · cases go with
    | false =>
      rw [performed.stays rfl]
      exact fun _ _ => rfl
    | true =>
      obtain ⟨_, disjoint, _⟩ := orderly_at sound.orderly body
      exact fun v hv => (performed.leads rfl).get?_eq (disjoint hv)
  · exact reached.snoc sound body ((performed.leads hgo).mono (task.scene_within hF))
  · rcases Head.Due.cons_iff.1 due with fails | ⟨c, hc, due⟩
    · exact (performed.fine fails).elim
    · obtain ⟨hgo, rfl⟩ := performed.only c hc
      exact ⟨hgo, due⟩

omit ends

/-- **Sharing out** makes sound tasks; a tuple is kept or goes to one of them. -/
theorem shareOut_went {tuples first : List Tuple}
    (safe : Safe cx rules start G owed task others w) (body : task.clause.body = pre ++ slot :: rest)
    (positive : slot.step.positiveGoal? = some goal)
    (reached : task.Reached cx start G pre w.bindings)
    (found : ∀ x ∈ tuples, (task.scene cx start G).Finds goal w.bindings x)
    (ok : shareOut cx task slot goal rest tuples w = .ok first w') :
    Safe cx rules start G owed task others w' ∧ w.Grows w' ∧ w'.bindings = w.bindings ∧
      (∀ x ∈ first, x ∈ tuples) ∧ ∀ tuple,
        (∃ y ∈ tuples, task.clause.head.Due (task.scene cx start F) (rest.map Slot.step)
          (goal.bind y w.bindings) tuple) →
        (∃ y ∈ first, task.clause.head.Due (task.scene cx start F) (rest.map Slot.step)
          (goal.bind y w.bindings) tuple) ∨ Settled cx start F task w' tuple := by
  obtain ⟨batches, rfl, idles⟩ := shareOut_ok ok
  have grows : w.Grows { w with
      spawned := (batches.map (suffix task goal rest w.bindings)).reverse ++ w.spawned } :=
    ⟨.refl _, id, List.subset_append_right ..⟩
  have safe' : Safe cx rules start G owed task others { w with
      spawned := (batches.map (suffix task goal rest w.bindings)).reverse ++ w.spawned } := by
    refine ⟨safe.store, fun t ht => ?_, safe.pending, safe.covered.mono ?_ (.refl _)⟩
    · rcases List.mem_append.1 ht with ht | ht
      · obtain ⟨ts, hts, rfl⟩ := List.mem_map.1 (List.mem_reverse.1 ht)
        refine { sound with resumes := ?_ }
        rintro r ⟨⟩
        refine ⟨pre, slot, body, positive, reached, fun x hx => found x ?_⟩
        exact List.mem_append_right _ (List.mem_flatten.2 ⟨ts, hts, hx⟩)
      · exact safe.spawned t ht
    · rw [List.append_assoc]
      exact List.subset_append_right ..
  refine ⟨safe'.of_idles idles, grows.trans (.of_idles idles), idles.bindings,
    fun x hx => List.mem_append_left _ hx, ?_⟩
  rintro tuple ⟨y, hy, due⟩
  rcases List.mem_append.1 hy with hy | hy
  · exact .inl ⟨y, hy, due⟩
  · obtain ⟨ts, hts, hy⟩ := List.mem_flatten.1 hy
    refine .inr (.inr ⟨suffix task goal rest w.bindings ts, ?_, rfl, y, hy, due⟩)
    rw [idles.spawned]
    exact List.mem_append_left _ (List.mem_reverse.2 (List.mem_map_of_mem hts))

/-- A tuple found is as long as the goal. -/
theorem length_of_found {y : Tuple} (body : task.clause.body = pre ++ slot :: rest)
    (positive : slot.step.positiveGoal? = some goal)
    (hy : (task.scene cx start G).Finds goal w.bindings y) : goal.args.length ≤ y.length := by
  obtain ⟨hstep, _⟩ := step_of_positive positive
  obtain ⟨_, _, offered, _⟩ := hy
  exact Nat.le_of_eq ((sound.suited goal (hstep ▸ step_mem body)).offered y offered).symm

/-- **Taking a tuple found** goes one step further; what was bound before stays bound. -/
theorem take_went {y : Tuple} {u : Unit} (body : task.clause.body = pre ++ slot :: rest)
    (positive : slot.step.positiveGoal? = some goal)
    (safe : Safe cx rules start G owed task others w)
    (reached : task.Reached cx start G pre w.bindings)
    (hy : (task.scene cx start G).Finds goal w.bindings y)
    (ok : take cx goal y w = .ok u w') :
    Safe cx rules start G owed task others w' ∧ w.Grows w' ∧
      w'.bindings = goal.bind y w.bindings ∧
      task.Reached cx start G (pre ++ [slot]) w'.bindings ∧
      ∀ b, Bindings.Agree (before (pre ++ [slot])) b w'.bindings →
        Bindings.Agree (before pre) b w.bindings := by
  obtain ⟨hstep, hn⟩ := step_of_positive positive
  have idles := take_ok ok
  have bindings : w'.bindings = goal.bind y w.bindings := idles.bindings
  have taken : w.Grows { w with bindings := goal.bind y w.bindings } :=
    ⟨.refl _, id, List.Subset.refl _⟩
  refine ⟨(safe.rebind _).of_idles idles, taken.trans (.of_idles idles), bindings, ?_, ?_⟩
  · refine reached.snoc sound body ?_
    rw [hstep, bindings]
    exact hy.leads hn
  · intro b agree
    refine (agree.subset before_subset_snoc).trans ?_
    rw [bindings]
    exact agree_bind_self sound.orderly body positive (length_of_found sound body positive hy) _

include hF

/-- **A loop over the tuples found**, given what becomes of the search after each of them. -/
theorem forM_went {x : Work Unit} {tuples : List Tuple} {u : Unit}
    (body : task.clause.body = pre ++ slot :: rest)
    (positive : slot.step.positiveGoal? = some goal)
    (each : ∀ {v v' : Worker} {u : Unit}, Safe cx rules start G owed task others v →
      F.Within (Store.Holds v.world.store) →
      task.Reached cx start G (pre ++ [slot]) v.bindings → x v = .ok u v' →
      Went cx rules start F G owed task others (before (pre ++ [slot])) (fun tuple =>
        task.clause.head.Due (task.scene cx start F) (rest.map Slot.step) v.bindings tuple) v v')
    (safe : Safe cx rules start G owed task others w) (low : F.Within (Store.Holds w.world.store))
    (reached : task.Reached cx start G pre w.bindings)
    (found : ∀ y ∈ tuples, (task.scene cx start G).Finds goal w.bindings y)
    (ok : (tuples.forM fun y => do
      take cx goal y
      x) w = .ok u w') :
    Went cx rules start F G owed task others (before pre) (fun tuple => ∃ y ∈ tuples,
      task.clause.head.Due (task.scene cx start F) (rest.map Slot.step) (goal.bind y w.bindings)
        tuple) w w' := by
  obtain ⟨hstep, _⟩ := step_of_positive positive
  obtain ⟨reads, _⟩ := orderly_at sound.orderly body
  rw [hstep] at reads
  have body' := body_snoc body
  induction tuples generalizing w with
  | nil =>
    obtain ⟨_, rfl⟩ := Outcome.pure_ok_iff.1 ok
    exact ⟨safe, .refl _, fun _ _ => rfl, nofun⟩
  | cons y ys ih =>
    obtain ⟨_, w₂, first, later⟩ := Outcome.bind_ok_iff.1 ok
    obtain ⟨_, w₁, htake, hx⟩ := Outcome.bind_ok_iff.1 first
    obtain ⟨safe₁, grows, bindings, step, back⟩ :=
      take_went sound body positive safe reached (found y (List.mem_cons_self ..)) htake
    have went := each safe₁ (low.trans grows.store) step hx
    have agree := back _ went.agree
    have grows' := grows.trans went.grows
    have went' := ih went.safe (low.trans grows'.store) (reached.of_agree agree.symm)
      (fun z hz => (found z (List.mem_cons_of_mem _ hz)).transfer (agree.symm.subset reads)) later
    refine ⟨went'.safe, grows'.trans went'.grows, went'.agree.trans agree, ?_⟩
    rintro tuple ⟨z, hz, due⟩
    rcases List.mem_cons.1 hz with rfl | hz
    · exact (went.settled tuple (bindings ▸ due)).mono went'.grows
    · refine went'.settled tuple ⟨z, hz, sound.due_transfer hF body' ?_ due⟩
      exact agree_bind positive (length_of_found sound body positive
        (found z (List.mem_cons_of_mem _ hz))) agree.symm

include diff ends

/-- **A search settles what is due** when it starts. -/
theorem search_went {slots : List Slot} {u : Unit} (body : task.clause.body = pre ++ slots)
    (safe : Safe cx rules start G owed task others w) (low : F.Within (Store.Holds w.world.store))
    (reached : task.Reached cx start G pre w.bindings)
    (ok : search cx task (conclude cx task failed) slots w = .ok u w') :
    Went cx rules start F G owed task others (before pre) (fun tuple =>
      task.clause.head.Due (task.scene cx start F) (slots.map Slot.step) w.bindings tuple) w w' := by
  induction slots generalizing pre w w' u with
  | nil =>
    obtain ⟨safe', grows, bindings, values, evaluates, stored⟩ := safe.conclude diff ends sound.heads
      (fun _ value => reached.derives sound body value) ok
    refine ⟨safe', grows, fun v _ => by rw [bindings], fun tuple due => .inl ?_⟩
    exact Head.Due.nil_iff.1 due values evaluates ▸ stored
  | cons slot rest ih =>
    have body' := body_snoc body
    rw [Work.search] at ok
    cases hpositive : slot.step.positiveGoal? with
    | some goal =>
      simp only [hpositive] at ok
      obtain ⟨tuples, _, hmatching, rest_ok⟩ := Outcome.bind_ok_iff.1 ok
      obtain ⟨rfl, found, split⟩ := matching_went safe low hpositive (within_ok_iff.1 hmatching)
      obtain ⟨first, w₁, hshare, loop⟩ := Outcome.bind_ok_iff.1 rest_ok
      obtain ⟨safe₁, grows, bindings, subset, share⟩ :=
        shareOut_went (F := F) sound safe body hpositive reached found hshare
      have went := forM_went sound hF body hpositive (ih body') safe₁ (low.trans grows.store)
        (bindings ▸ reached) (fun y hy => bindings ▸ found y (subset y hy)) loop
      refine ⟨went.safe, grows.trans went.grows, bindings ▸ went.agree, fun tuple due => ?_⟩
      rcases share tuple (split _ tuple due) with due | settled
      · exact went.settled tuple (bindings ▸ due)
      · exact settled.mono went.grows
    | none =>
      simp only [hpositive] at ok
      obtain ⟨go, w₁, hperform, rest_ok⟩ := Outcome.bind_ok_iff.1 ok
      obtain ⟨safe₁, grows, agree, goes, step⟩ :=
        perform_went ends sound safe hF body hpositive reached (within_ok_iff.1 hperform)
      cases go with
      | false =>
        obtain ⟨_, rfl⟩ := Outcome.pure_ok_iff.1 rest_ok
        exact ⟨safe₁, grows, agree, fun tuple due => absurd (step _ tuple due).1 Bool.false_ne_true⟩
      | true =>
        have went := ih body' safe₁ (low.trans grows.store) (goes rfl) rest_ok
        refine ⟨went.safe, grows.trans went.grows,
          (went.agree.subset before_subset_snoc).trans agree, fun tuple due => ?_⟩
        exact went.settled tuple (step _ tuple due).2

end

end Work

end Datalog
