import Datalog.Proofs.Compile.Variant
import Datalog.Proofs.Ways

/-!
# Proofs/Fitted — tuples made to fit

Nothing keeps a tuple of the wrong length out of a store.  A goal that finds one too long drops the
rest of it; one too short leaves some of the goal's variables unbound.  As long as nothing asks for
those variables they might as well be bound, to anything.  So a clause that does not fault derives
the same from facts that have been made to fit (`Clause.derives_iff_fitted`): every tuple is cut
down to the arity of its relation, or filled up in all possible ways.
-/

namespace Datalog

/-- **A tuple made to fit** so many positions: cut down to them, or filled up. -/
def Tuple.Fits (n : Nat) (t u : Tuple) : Prop := t.length = n ∧ (t <+: u ∨ u <+: t)

/-- **The facts made to fit**, each tuple in all possible ways. -/
def Facts.fitted (F : Facts) : Facts := fun r t => ∃ u, F r u ∧ t.Fits r.arity u

theorem Facts.measured_fitted (F : Facts) : F.fitted.Measured :=
  fun _ _ ⟨_, _, fits⟩ => fits.1

theorem Facts.Within.fitted {F G : Facts} (h : F.Within G) : F.fitted.Within G.fitted :=
  fun r _ ⟨u, hu, fits⟩ => ⟨u, h r u hu, fits⟩

/-! ## Lookups -/

namespace Key

variable {key : Key} {t u : Tuple}

/-- What a fitted tuple agrees with, the tuple itself agrees with. -/
theorem agrees_of_fits (fits : t.Fits key.length u) (h : key.agrees t = true) :
    key.agrees u = true := by
  rw [agrees_iff] at h ⊢
  intro p x y hx hy
  refine h p x y hx ?_
  have hp : p < t.length := by
    rw [fits.1]
    exact (List.getElem?_eq_some_iff.1 hx).1
  obtain ⟨w, rfl⟩ | ⟨w, rfl⟩ := fits.2
  · rwa [List.getElem?_append_left hp] at hy
  · rwa [List.getElem?_append_left (List.getElem?_eq_some_iff.1 hy).1]

/-- **A tuple that agrees can be made to fit** and agree. -/
theorem exists_fits : ∀ {key : Key} {u : Tuple}, key.agrees u = true →
    ∃ t, t.Fits key.length u ∧ key.agrees t = true
  | [], _, _ => ⟨[], ⟨rfl, .inl List.nil_prefix⟩, rfl⟩
  | k :: ks, [], _ => by
    obtain ⟨t, fits, agrees⟩ := @exists_fits ks [] (by cases ks <;> simp [Key.agrees])
    refine ⟨k.getD default :: t, ⟨congrArg (· + 1) fits.1, .inr List.nil_prefix⟩, ?_⟩
    cases k <;> simpa [Key.agrees] using agrees
  | k :: ks, x :: xs, h => by
    obtain ⟨first, later⟩ := agrees_cons_iff.1 h
    obtain ⟨t, fits, agrees⟩ := exists_fits later
    refine ⟨x :: t, ⟨congrArg (· + 1) fits.1, ?_⟩, agrees_cons_iff.2 ⟨first, agrees⟩⟩
    simpa [List.cons_prefix_cons] using fits.2

end Key

namespace Goal

variable {g : Goal} {b b' : Bindings} {t u : Tuple}

/-- A key has an entry for each argument. -/
theorem length_of_key {fns : Functions} {key : Key} (hkey : g.key fns b = .ok key) :
    key.length = g.args.length :=
  (key_eq_ok_iff.1 hkey).length_eq.symm

/-- A fitted tuple makes the same bindings, up to what is cut off or filled in. -/
theorem exists_bindingsOf (fits : t.Fits g.args.length u) :
    ∃ more, g.bindingsOf t = g.bindingsOf u ++ more := by
  obtain ⟨length, ⟨w, rfl⟩ | ⟨w, rfl⟩⟩ := fits
  · refine ⟨[], ?_⟩
    have cut : g.args.zip (t ++ w) = g.args.zip t := by
      conv_lhs => rw [← List.append_nil g.args]
      rw [List.zip_append length.symm, List.zip_nil_left, List.append_nil]
    rw [bindingsOf, bindingsOf, cut, List.append_nil]
  · obtain ⟨args, rest, split, long⟩ : ∃ args rest, g.args = args ++ rest ∧
        args.length = u.length := by
      refine ⟨g.args.take u.length, g.args.drop u.length, (List.take_append_drop ..).symm, ?_⟩
      rw [List.length_take, ← length, List.length_append]
      omega
    have filled : (args ++ rest).zip (u ++ w) = args.zip u ++ rest.zip w := List.zip_append long
    have short : (args ++ rest).zip (u ++ []) = args.zip u ++ rest.zip [] := List.zip_append long
    rw [List.append_nil, List.zip_nil_right, List.append_nil] at short
    rw [bindingsOf, bindingsOf, split, filled, short, List.flatMap_append]
    exact ⟨_, rfl⟩

/-- **A fitted tuple binds whatever the tuple itself binds.** -/
theorem bind_within (fits : t.Fits g.args.length u) (within : b.Within b')
    (nodup : (g.args.flatMap Arg.writes).Nodup)
    (unbound : ∀ v ∈ g.args.flatMap Arg.writes, b.get? v = none) :
    (g.bind u b).Within (g.bind t b') := by
  obtain ⟨more, split⟩ := exists_bindingsOf fits
  have names := map_fst_bindingsOf (Nat.le_of_eq fits.1.symm)
  rw [split, List.map_append] at names
  rw [bind_eq_putAll, bind_eq_putAll, split]
  intro v x hx
  have append : b'.putAll (g.bindingsOf u ++ more) = (b'.putAll (g.bindingsOf u)).putAll more :=
    List.foldl_append ..
  by_cases hv : v ∈ more.map Prod.fst
  · -- what is filled in was not bound
    have fresh : v ∉ (g.bindingsOf u).map Prod.fst := fun h =>
      (List.nodup_append'.1 (names ▸ nodup)).2.2 h hv
    rw [Assoc.get?_putAll_of_notMem fresh,
      unbound v (names ▸ List.mem_append_right _ hv)] at hx
    cases hx
  · rw [append, Assoc.get?_putAll_of_notMem hv]
    exact within.putAll _ v x hx

end Goal

/-! ## Runs -/

/-- **The second scene is the first with its tuples made to fit** the goals of the steps. -/
structure Scene.Fits (s s' : Scene) (steps : List Step) : Prop where
  functions : s'.functions = s.functions
  offers : ∀ g, .lookup g ∈ steps → ∀ t,
    s'.Offers g t ↔ ∃ u, s.Offers g u ∧ t.Fits g.args.length u
  absent : ∀ g, .lookup g ∈ steps → ∀ t,
    s'.absent g.relation t ↔ ∃ u, s.absent g.relation u ∧ t.Fits g.args.length u

section

variable {s s' : Scene} {step : Step} {steps : List Step}

theorem Scene.Fits.head (h : s.Fits s' (step :: steps)) : s.Fits s' [step] :=
  ⟨h.functions, fun g hg => h.offers g (List.mem_singleton.1 hg ▸ List.mem_cons_self ..),
    fun g hg => h.absent g (List.mem_singleton.1 hg ▸ List.mem_cons_self ..)⟩

theorem Scene.Fits.tail (h : s.Fits s' (step :: steps)) : s.Fits s' steps :=
  ⟨h.functions, fun g hg => h.offers g (List.mem_cons_of_mem _ hg),
    fun g hg => h.absent g (List.mem_cons_of_mem _ hg)⟩

end

namespace Step

variable {s s' : Scene} {step : Step} {steps : List Step} {known : List Var}
  {b b' c c' : Bindings}

/-- Whatever fails with more bound fails with less. -/
theorem Fails.of_within {fns : Functions} (h : step.Fails fns b') (within : b.Within b') :
    step.Fails fns b := by
  have none {t : Term} (ht : t.value? b'.get? fns = none) : t.value? b.get? fns = none := by
    by_contra hn
    obtain ⟨x, hx⟩ := Option.ne_none_iff_exists'.1 hn
    cases (within.value? hx).symm.trans ht
  cases step with
  | assign v t => exact none h
  | check l r negated => exact h.imp none none
  | destruct t f ys => exact none h
  | lookup g =>
    obtain ⟨t, ht, h⟩ := h
    exact ⟨t, ht, none h⟩

/-- A goal that does not fail has the key that it has with more bound. -/
theorem key_of_within {fns : Functions} {g : Goal} {key : Key} (calm : ¬Fails fns b (.lookup g))
    (within : b.Within b') (hkey : g.key fns b' = .ok key) : g.key fns b = .ok key := by
  cases h : g.key fns b with
  | error e => exact (calm (fails_of_key h)).elim
  | ok key' => exact (within.key h).symm.trans hkey

/-- **Where a step leads**, it leads over fitted tuples from bindings that have more. -/
theorem Leads.fitted (fits : s.Fits s' [step]) (nodup : step.writes.Nodup)
    (unbound : ∀ v ∈ step.writes, b.get? v = none) (within : b.Within b')
    (h : step.Leads s b c) : ∃ c', step.Leads s' b' c' ∧ c.Within c' := by
  have functions := fits.functions
  cases step with
  | assign v t =>
    obtain ⟨x, hx, rfl⟩ := leads_assign_iff.1 h
    exact ⟨_, leads_assign_iff.2 ⟨x, functions ▸ within.value? hx, rfl⟩, within.putAll [(v, x)]⟩
  | check l r negated =>
    obtain ⟨rfl, x, y, hx, hy, hxy⟩ := leads_check_iff.1 h
    exact ⟨b', leads_check_iff.2
      ⟨rfl, x, y, functions ▸ within.value? hx, functions ▸ within.value? hy, hxy⟩, within⟩
  | destruct t f ys =>
    obtain ⟨xs, hx, hlen, rfl⟩ := leads_destruct_iff.1 h
    exact ⟨_, leads_destruct_iff.2 ⟨xs, functions ▸ within.value? hx, hlen, rfl⟩,
      within.putAll _⟩
  | lookup g =>
    have hg : Step.lookup g ∈ [Step.lookup g] := List.mem_singleton.2 rfl
    cases h with
    | @found _ _ key u positive hkey offered agrees =>
      rw [writes, positive, if_neg Bool.false_ne_true] at nodup unbound
      obtain ⟨t, ht, agrees'⟩ := Key.exists_fits agrees
      rw [Goal.length_of_key hkey] at ht
      exact ⟨_, .found positive (functions ▸ within.key hkey) ((fits.offers g hg t).2
        ⟨u, offered, ht⟩) agrees', Goal.bind_within ht within nodup unbound⟩
    | @absent _ _ key negated hkey none =>
      refine ⟨b', .absent negated (functions ▸ within.key hkey) fun t ht => ?_, within⟩
      obtain ⟨u, hu, fits⟩ := (fits.absent g hg t).1 ht
      rw [← Goal.length_of_key hkey] at fits
      exact Bool.eq_false_iff.2 fun agrees =>
        Bool.eq_false_iff.1 (none u hu) (Key.agrees_of_fits fits agrees)

/-- **Where a step leads over fitted tuples**, it leads from bindings that have less, unless it
fails. -/
theorem Leads.of_fitted (fits : s.Fits s' [step]) (nodup : step.writes.Nodup)
    (unbound : ∀ v ∈ step.writes, b.get? v = none) (within : b.Within b')
    (calm : ¬step.Fails s.functions b) (h : step.Leads s' b' c') :
    ∃ c, step.Leads s b c ∧ c.Within c' := by
  have value {t x : Term} (ht : t.value? b.get? s.functions ≠ none)
      (hx : t.value? b'.get? s'.functions = some x) : t.value? b.get? s.functions = some x := by
    obtain ⟨y, hy⟩ := Option.ne_none_iff_exists'.1 ht
    rw [fits.functions] at hx
    rw [within.value? hy, Option.some.injEq] at hx
    exact hx ▸ hy
  cases step with
  | assign v t =>
    obtain ⟨x, hx, rfl⟩ := leads_assign_iff.1 h
    exact ⟨_, leads_assign_iff.2 ⟨x, value calm hx, rfl⟩, within.putAll [(v, x)]⟩
  | check l r negated =>
    obtain ⟨rfl, x, y, hx, hy, hxy⟩ := leads_check_iff.1 h
    obtain ⟨hl, hr⟩ := not_or.1 calm
    exact ⟨b, leads_check_iff.2 ⟨rfl, x, y, value hl hx, value hr hy, hxy⟩, within⟩
  | destruct t f ys =>
    obtain ⟨xs, hx, hlen, rfl⟩ := leads_destruct_iff.1 h
    exact ⟨_, leads_destruct_iff.2 ⟨xs, value calm hx, hlen, rfl⟩, within.putAll _⟩
  | lookup g =>
    have hg : Step.lookup g ∈ [Step.lookup g] := List.mem_singleton.2 rfl
    cases h with
    | @found _ _ key t positive hkey offered agrees =>
      rw [writes, positive, if_neg Bool.false_ne_true] at nodup unbound
      obtain ⟨u, hu, ht⟩ := (fits.offers g hg t).1 offered
      rw [fits.functions] at hkey
      have agrees' := Key.agrees_of_fits (Goal.length_of_key hkey ▸ ht) agrees
      exact ⟨_, .found positive (key_of_within calm within hkey) hu agrees',
        Goal.bind_within ht within nodup unbound⟩
    | @absent _ _ key negated hkey none =>
      rw [fits.functions] at hkey
      refine ⟨b, .absent negated (key_of_within calm within hkey) fun u hu => ?_, within⟩
      refine Bool.eq_false_iff.2 fun agrees => ?_
      obtain ⟨t, ht, agrees'⟩ := Key.exists_fits agrees
      rw [Goal.length_of_key hkey] at ht
      exact Bool.eq_false_iff.1 (none t ((fits.absent g hg t).2 ⟨u, hu, ht⟩)) agrees'

/-- Steps in order from bindings that have none of what they write. -/
structure Ready (known : List Var) (steps : List Step) (b b' : Bindings) : Prop where
  order : InOrder known steps
  unbound : ∀ v ∈ written steps, b.get? v = none
  within : b.Within b'

theorem Ready.step_unbound (h : Ready known (step :: steps) b b') :
    ∀ v ∈ step.writes, b.get? v = none :=
  fun v hv => h.unbound v (List.mem_append_left _ hv)

/-- **After a step** the others are ready. -/
theorem Ready.next (h : Ready known (step :: steps) b b') (first : step.Leads s b c)
    (within : c.Within c') : Ready (known ++ step.writes) steps c c' := by
  refine ⟨h.order.2.2.2, fun v hv => ?_, within⟩
  have fresh : v ∉ step.writes := fun hs =>
    h.order.2.2.2.disjoint (List.mem_append_right _ hs) hv
  rw [first.get?_eq fresh]
  exact h.unbound v (List.mem_append_right _ hv)

/-- **A path over tuples of any length** is one over fitted tuples. -/
theorem Path.fitted (fits : s.Fits s' steps) (ready : Ready known steps b b')
    (h : Path s steps b c) : ∃ c', Path s' steps b' c' ∧ c.Within c' := by
  induction h generalizing known b' with
  | nil => exact ⟨b', .nil, ready.within⟩
  | cons first rest ih =>
    obtain ⟨c', first', within⟩ := first.fitted fits.head ready.order.2.2.1 ready.step_unbound
      ready.within
    obtain ⟨d', rest', within'⟩ := ih fits.tail (ready.next first within)
    exact ⟨d', .cons first' rest', within'⟩

/-- **A path over fitted tuples** is one over the tuples as they are, unless that one breaks. -/
theorem Path.of_fitted (fits : s.Fits s' steps) (ready : Ready known steps b b')
    (calm : ¬Breaks s steps b) (h : Path s' steps b' c') :
    ∃ c, Path s steps b c ∧ c.Within c' := by
  induction h generalizing known b with
  | nil => exact ⟨b, .nil, ready.within⟩
  | cons first' rest' ih =>
    obtain ⟨c, first, within⟩ := first'.of_fitted fits.head ready.order.2.2.1 ready.step_unbound
      ready.within fun fails => calm (.here fails)
    obtain ⟨d, rest, within'⟩ := ih fits.tail (ready.next first within)
      fun breaks => calm (.later first breaks)
    exact ⟨d, .cons first rest, within'⟩

/-- **What breaks over fitted tuples** breaks over the tuples as they are. -/
theorem Breaks.of_fitted (fits : s.Fits s' steps) (ready : Ready known steps b b')
    (h : Breaks s' steps b') : Breaks s steps b := by
  by_contra calm
  induction h generalizing known b with
  | here fails => exact calm (.here (fits.functions ▸ fails.of_within ready.within))
  | later first' _ ih =>
    obtain ⟨c, first, within⟩ := first'.of_fitted fits.head ready.order.2.2.1 ready.step_unbound
      ready.within fun fails => calm (.here fails)
    exact ih fits.tail (ready.next first within) fun breaks => calm (.later first breaks)

end Step

namespace Clause

variable {s s' : Scene} {c : Clause} {tuple : Tuple}

theorem Orderly.ready (orderly : c.Orderly) : Step.Ready [] c.body ∅ ∅ :=
  ⟨orderly.inOrder, fun _ _ => rfl, fun _ _ h => h⟩

/-- **What is due over fitted tuples is derived** if the clause does not fault. -/
theorem derives_of_due_fitted (orderly : c.Orderly) (fits : s.Fits s' c.body) (calm : ¬c.Faults s)
    (due : c.head.Due s' c.body ∅ tuple) : c.Derives s tuple := by
  obtain ⟨unbroken, values⟩ := not_or.1 calm
  rcases due with ⟨b', path', value'⟩ | breaks
  · obtain ⟨b, path, within⟩ := path'.of_fitted fits orderly.ready unbroken
    obtain ⟨tuple', value⟩ : ∃ tuple', Tuple.evaluate b s.functions c.head.args = .ok tuple' := by
      by_contra none
      exact values ⟨b, path, fun tuple' value => none ⟨tuple', value⟩⟩
    obtain rfl := value' tuple' (fits.functions ▸ within.tuple value)
    exact ⟨b, path, value⟩
  · exact (unbroken (breaks.of_fitted fits orderly.ready)).elim

/-- **A clause that does not fault derives the same** from tuples that have been made to fit. -/
theorem derives_iff_fitted (orderly : c.Orderly) (fits : s.Fits s' c.body) (calm : ¬c.Faults s) :
    c.Derives s tuple ↔ c.Derives s' tuple := by
  constructor
  · rintro ⟨b, path, value⟩
    obtain ⟨b', path', within⟩ := path.fitted fits orderly.ready
    exact ⟨b', path', fits.functions ▸ within.tuple value⟩
  · rintro ⟨b', path', value'⟩
    exact derives_of_due_fitted orderly fits calm (.of_path path' value')

/-- The scene of a clause that reads whole relations, made to fit. -/
theorem Orderly.fits_over {fns : Functions} {start F : Facts} (orderly : c.Orderly) :
    (Scene.over fns start F).Fits (.over fns start.fitted F.fitted) c.body := by
  refine ⟨rfl, fun g hg t => ?_, fun g hg t => ?_⟩
  · simp only [Scene.offers_over, orderly.goals g hg]
    rfl
  · rw [orderly.goals g hg]
    rfl

/-- The scene of a clause that reads new tuples of the relation, made to fit. -/
theorem Orderly.fits_onSeed {fns : Functions} {start F N : Facts} {r : Relation}
    (orderly : c.Orderly) (own : ∀ g, .lookup g ∈ c.body → g.delta = true → g.relation = r) :
    (Scene.onSeed fns start F (N r)).Fits (.onSeed fns start.fitted F.fitted (N.fitted r))
      c.body := by
  refine ⟨rfl, fun g hg t => ?_, fun g hg t => ?_⟩
  · rw [orderly.goals g hg]
    cases hd : g.delta with
    | true =>
      have hr := own g hg hd
      simp only [Scene.Offers, hd, Scene.onSeed, hr]
      rfl
    | false =>
      simp only [Scene.Offers, hd]
      rfl
  · rw [orderly.goals g hg]
    rfl

end Clause

end Datalog
