import Datalog.Proofs.Goals

/-!
# Proofs/Flow — bindings along a path

Where every step reads only what earlier steps have written (`Step.InOrder`), bindings matter only
at those variables (`Step.Leads.transfer`), and a path through the steps never overwrites a binding
it has made (`Step.Path.get?_eq`).
-/

namespace Datalog

/-! ## One step -/

namespace Step

variable {s : Scene} {b b' c d : Bindings}

theorem leads_assign_iff {v : Var} {t : Term} : Leads s (.assign v t) b c ↔
    ∃ x, t.value? b.get? s.functions = some x ∧ c = b.put v x := by
  simp only [← Term.evaluate_eq_ok_iff]
  constructor
  · intro h
    cases h with | assign h =>
    obtain ⟨x, hx, h⟩ := Outcome.except_bind_ok_iff.1 h
    cases h
    exact ⟨x, hx, rfl⟩
  · rintro ⟨x, hx, rfl⟩
    exact .assign (Outcome.except_bind_ok_iff.2 ⟨x, hx, rfl⟩)

theorem leads_check_iff {l r : Term} {negated : Bool} : Leads s (.check l r negated) b c ↔
    c = b ∧ ∃ x y, l.value? b.get? s.functions = some x ∧ r.value? b.get? s.functions = some y ∧
      (x = y ↔ negated = false) := by
  simp only [← Term.evaluate_eq_ok_iff]
  constructor
  · intro h
    cases h with | check h =>
    obtain ⟨x, hx, h⟩ := Outcome.except_bind_ok_iff.1 h
    obtain ⟨y, hy, h⟩ := Outcome.except_bind_ok_iff.1 h
    refine ⟨rfl, x, y, hx, hy, ?_⟩
    cases negated <;> simpa [pure, Except.pure] using h
  · rintro ⟨rfl, x, y, hx, hy, h⟩
    refine .check (Outcome.except_bind_ok_iff.2 ⟨x, hx, Outcome.except_bind_ok_iff.2 ⟨y, hy, ?_⟩⟩)
    cases negated <;> simpa [pure, Except.pure] using h

/-- **A negated goal leads nowhere else**, and nowhere at all if a tuple agrees with its key. -/
theorem leads_absent_iff {g : Goal} (negated : g.negated = true) : Leads s (.lookup g) b c ↔
    ∃ key, g.key s.functions b = .ok key ∧
      (∀ t, s.absent g.relation t → key.agrees t = false) ∧ c = b := by
  constructor
  · intro h
    cases h with
    | found positive =>
      rw [negated] at positive
      cases positive
    | absent _ hkey none => exact ⟨_, hkey, none, rfl⟩
  · rintro ⟨key, hkey, none, rfl⟩
    exact .absent negated hkey none

/-- **A positive goal leads** to what the tuples that agree with its key bind. -/
theorem leads_found_iff {g : Goal} (positive : g.negated = false) : Leads s (.lookup g) b c ↔
    ∃ key, g.key s.functions b = .ok key ∧
      ∃ t, (s.Offers g t ∧ key.agrees t = true) ∧ g.bind t b = c := by
  constructor
  · intro h
    cases h with
    | found _ hkey offered agrees => exact ⟨_, hkey, _, ⟨offered, agrees⟩, rfl⟩
    | absent negated =>
      rw [positive] at negated
      cases negated
  · rintro ⟨key, hkey, t, ⟨offered, agrees⟩, rfl⟩
    exact .found positive hkey offered agrees

theorem leads_destruct_iff {t : Term} {f : String} {ys : List Var} :
    Leads s (.destruct t f ys) b c ↔ ∃ xs, t.value? b.get? s.functions = some (.ctor f xs) ∧
      xs.length = ys.length ∧ c = b.putAll (ys.zip xs) := by
  simp only [← Term.evaluate_eq_ok_iff]
  constructor
  · intro h
    cases h with | destruct h =>
    obtain ⟨x, hx, h⟩ := Outcome.except_bind_ok_iff.1 h
    cases x with
    | ctor g xs =>
      dsimp only at h
      split at h
      · next hfg =>
        cases h
        exact ⟨xs, hfg.1 ▸ hx, hfg.2, rfl⟩
      · cases h
    | var | lit | call => cases h
  · rintro ⟨xs, hx, hlen, rfl⟩
    refine .destruct (Outcome.except_bind_ok_iff.2 ⟨_, hx, ?_⟩)
    dsimp only
    rw [if_pos ⟨rfl, hlen⟩]
    rfl

/-- A step changes what it writes and nothing else. -/
theorem Leads.get?_eq {step : Step} (h : Leads s step b c) {v : Var} (hv : v ∉ step.writes) :
    c.get? v = b.get? v := by
  cases h with
  | assign h =>
    obtain ⟨x, _, rfl⟩ := leads_assign_iff.1 (.assign (s := s) h)
    rw [Assoc.get?_put, if_neg]
    exact fun e => hv (List.mem_singleton.2 e.symm)
  | check h => rfl
  | destruct h =>
    obtain ⟨xs, _, hlen, rfl⟩ := leads_destruct_iff.1 (.destruct (s := s) h)
    refine Assoc.get?_putAll_of_notMem ?_
    rwa [List.map_fst_zip (Nat.le_of_eq hlen.symm)]
  | found positive _ _ _ =>
    rw [Goal.bind_eq_putAll]
    refine Assoc.get?_putAll_of_notMem fun hm => hv ?_
    rw [writes, positive]
    exact Goal.map_fst_bindingsOf_subset _ _ hm
  | absent => rfl

end Step

/-- **The tuples that a goal meets are as long as the goal.** -/
structure Scene.Suits (s : Scene) (g : Goal) : Prop where
  offered : ∀ tuple, s.Offers g tuple → tuple.length = g.args.length
  absent : ∀ tuple, s.absent g.relation tuple → tuple.length = g.args.length

namespace Step

variable {s : Scene} {b b' c d : Bindings} {known : List Var}

/-- The scene suits the goals of the steps. -/
def Suited (s : Scene) (steps : List Step) : Prop := ∀ g, .lookup g ∈ steps → s.Suits g

/-- **No tuple is too short** for a positive goal of the steps that it is offered to. -/
def Long (s : Scene) (steps : List Step) : Prop :=
  ∀ g, .lookup g ∈ steps → g.negated = false → ∀ tuple, s.Offers g tuple →
    g.args.length ≤ tuple.length

theorem Suited.long {steps : List Step} (h : Suited s steps) : Long s steps :=
  fun g hg _ tuple offered => Nat.le_of_eq ((h g hg).offered tuple offered).symm

/-- **A step sees only what it reads**: from bindings that agree it leads to bindings that agree. -/
theorem Leads.transfer {step : Step} (h : Leads s step b c) (reads : step.reads ⊆ known)
    (suits : ∀ g, step = .lookup g → s.Suits g) (agree : Bindings.Agree known b b') :
    ∃ c', Leads s step b' c' ∧ Bindings.Agree (known ++ step.writes) c c' := by
  have same {t : Term} (ht : t.occurrences ⊆ known) :
      t.value? b.get? s.functions = t.value? b'.get? s.functions :=
    Term.value?_congr fun v hv => agree v (ht hv)
  cases h with
  | @assign v t _ _ h =>
    obtain ⟨x, hx, rfl⟩ := leads_assign_iff.1 (.assign (s := s) h)
    refine ⟨b'.put v x, leads_assign_iff.2 ⟨x, same reads ▸ hx, rfl⟩, ?_⟩
    exact agree.putAll [(v, x)]
  | check h =>
    obtain ⟨_, x, y, hx, hy, hxy⟩ := leads_check_iff.1 (.check (s := s) h)
    refine ⟨b', leads_check_iff.2 ⟨rfl, x, y, ?_, ?_, hxy⟩, ?_⟩
    · exact same (fun v hv => reads (List.mem_append_left _ hv)) ▸ hx
    · exact same (fun v hv => reads (List.mem_append_right _ hv)) ▸ hy
    · rwa [writes, List.append_nil]
  | @destruct t f ys _ _ h =>
    obtain ⟨xs, hx, hlen, rfl⟩ := leads_destruct_iff.1 (.destruct (s := s) h)
    refine ⟨b'.putAll (ys.zip xs), leads_destruct_iff.2 ⟨xs, same reads ▸ hx, hlen, rfl⟩, ?_⟩
    have agree' := agree.putAll (ys.zip xs)
    rwa [List.map_fst_zip (Nat.le_of_eq hlen.symm)] at agree'
  | @found g _ key tuple positive hkey offered agrees =>
    refine ⟨g.bind tuple b', .found positive (Goal.key_congr (agree.subset reads) ▸ hkey) offered
      agrees, ?_⟩
    rw [writes, positive, if_neg Bool.false_ne_true, Goal.bind_eq_putAll, Goal.bind_eq_putAll,
      ← Goal.map_fst_bindingsOf (Nat.le_of_eq ((suits g rfl).offered tuple offered).symm)]
    exact agree.putAll _
  | @absent g _ key negated hkey none =>
    refine ⟨b', .absent negated (Goal.key_congr (agree.subset reads) ▸ hkey) none, ?_⟩
    rwa [writes, if_pos negated, List.append_nil]

/-- **A step binds what it writes.** -/
theorem Leads.defined {step : Step} (h : Leads s step b c) (long : Long s [step])
    (order : step.writes.Nodup) :
    Bindings.Defined step.writes c := by
  have all (pairs : List (Var × Term)) (hd : (pairs.map Prod.fst).Nodup) :
      Bindings.Defined (pairs.map Prod.fst) (b.putAll pairs) :=
    fun v hv => Bindings.Defined.putAll (b := b) (nofun : ∀ v ∈ ([] : List Var), _) hd v hv
  cases h with
  | @assign v t _ _ h =>
    obtain ⟨x, _, rfl⟩ := leads_assign_iff.1 (.assign (s := s) h)
    exact all [(v, x)] order
  | check h => exact fun v hv => absurd hv (List.not_mem_nil)
  | @destruct t f ys _ _ h =>
    obtain ⟨xs, _, hlen, rfl⟩ := leads_destruct_iff.1 (.destruct (s := s) h)
    have hys : (ys.zip xs).map Prod.fst = ys := List.map_fst_zip (Nat.le_of_eq hlen.symm)
    have defined := all (ys.zip xs) (by rw [hys]; exact order)
    rwa [hys] at defined
  | @found g _ key tuple positive _ offered _ =>
    have hws := Goal.map_fst_bindingsOf (long g (List.mem_singleton.2 rfl) positive tuple offered)
    rw [writes, positive, if_neg Bool.false_ne_true] at order ⊢
    have defined := all (g.bindingsOf tuple) (hws ▸ order)
    rwa [hws, ← Goal.bind_eq_putAll] at defined
  | absent negated _ _ =>
    rw [writes, if_pos negated]
    exact fun v hv => absurd hv (List.not_mem_nil)

/-- **A step's terms have no value**, some of them. -/
def Fails (fns : Functions) (b : Bindings) : Step → Prop
  | assign _ t => t.value? b.get? fns = none
  | check l r _ => l.value? b.get? fns = none ∨ r.value? b.get? fns = none
  | destruct t _ _ => t.value? b.get? fns = none
  | lookup g => ∃ t, .bound t ∈ g.args ∧ t.value? b.get? fns = none

theorem Fails.transfer {fns : Functions} {step : Step} (h : step.Fails fns b)
    (reads : step.reads ⊆ known) (agree : Bindings.Agree known b b') : step.Fails fns b' := by
  have same {t : Term} (ht : t.occurrences ⊆ known) :
      t.value? b.get? fns = t.value? b'.get? fns :=
    Term.value?_congr fun v hv => agree v (ht hv)
  cases step with
  | assign v t => exact (same reads).symm.trans h
  | check l r negated =>
    refine h.imp (fun h => ?_) fun h => ?_
    · exact (same fun v hv => reads (List.mem_append_left _ hv)).symm.trans h
    · exact (same fun v hv => reads (List.mem_append_right _ hv)).symm.trans h
  | destruct t f ys => exact (same reads).symm.trans h
  | lookup g =>
    obtain ⟨t, ht, h⟩ := h
    exact ⟨t, ht, (same fun v hv => reads (List.mem_flatMap.2 ⟨_, ht, hv⟩)).symm.trans h⟩

/-- A goal without a key has a bound argument without a value. -/
theorem fails_of_key {fns : Functions} {b : Bindings} {g : Goal} {e : Abort}
    (h : g.key fns b = .error e) : Fails fns b (.lookup g) := by
  obtain ⟨t, ht, he⟩ := Goal.exists_of_key_error h
  exact ⟨t, ht, Term.value?_eq_none he⟩

/-! ## Several steps -/

/-- **Some way through the steps comes to one that fails.** -/
inductive Breaks (s : Scene) : List Step → Bindings → Prop
  | here {step steps b} (fails : step.Fails s.functions b) : Breaks s (step :: steps) b
  | later {step steps b c} (first : step.Leads s b c) (rest : Breaks s steps c) :
      Breaks s (step :: steps) b

theorem path_append_iff {ss ss' : List Step} :
    Path s (ss ++ ss') b d ↔ ∃ c, Path s ss b c ∧ Path s ss' c d := by
  induction ss generalizing b with
  | nil => exact ⟨fun h => ⟨b, .nil, h⟩, by rintro ⟨_, ⟨⟩, h⟩; exact h⟩
  | cons step ss ih =>
    constructor
    · rintro (_ | ⟨first, rest⟩)
      obtain ⟨c, h, h'⟩ := ih.1 rest
      exact ⟨c, .cons first h, h'⟩
    · rintro ⟨c, _ | ⟨first, rest⟩, h'⟩
      exact .cons first (ih.2 ⟨c, rest, h'⟩)

theorem path_singleton_iff {step : Step} : Path s [step] b c ↔ step.Leads s b c := by
  constructor
  · rintro (_ | ⟨first, ⟨⟩⟩)
    exact first
  · exact fun h => .cons h .nil

theorem Breaks.append {ss : List Step} (h : Breaks s ss b) (ss' : List Step) :
    Breaks s (ss ++ ss') b := by
  induction h with
  | here fails => exact .here fails
  | later first _ ih => exact .later first ih

theorem Path.breaks {ss ss' : List Step} (h : Path s ss b c) (h' : Breaks s ss' c) :
    Breaks s (ss ++ ss') b := by
  induction h with
  | nil => exact h'
  | cons first _ ih => exact .later first (ih h')

/-- Steps change what they write and nothing else. -/
theorem Path.get?_eq {ss : List Step} (h : Path s ss b c) {v : Var} (hv : v ∉ written ss) :
    c.get? v = b.get? v := by
  induction h with
  | nil => rfl
  | cons first _ ih =>
    rw [written_cons, List.mem_append, not_or] at hv
    rw [ih hv.2, first.get?_eq hv.1]

/-- **Steps bind what they write**, and keep what is bound. -/
theorem Path.defined {ss : List Step} (h : Path s ss b c) (order : InOrder known ss)
    (long : Long s ss) (hb : Bindings.Defined known b) :
    Bindings.Defined (known ++ written ss) c := by
  induction h generalizing known with
  | nil => rwa [written_nil, List.append_nil]
  | @cons step ss b c d first rest ih =>
    rw [written_cons, ← List.append_assoc]
    refine ih order.2.2.2 (fun g hg => long g (List.mem_cons_of_mem _ hg)) fun v hv => ?_
    rcases List.mem_append.1 hv with hv | hv
    · rw [first.get?_eq (order.2.1 hv)]
      exact hb v hv
    · refine first.defined (fun g hg => long g ?_) order.2.2.1 v hv
      exact List.mem_singleton.1 hg ▸ List.mem_cons_self ..

/-- **Steps in order see only what is known**, and what they bind themselves. -/
theorem Path.transfer {ss : List Step} (h : Path s ss b c) (order : InOrder known ss)
    (suited : Suited s ss) (agree : Bindings.Agree known b b') :
    ∃ c', Path s ss b' c' ∧ Bindings.Agree (known ++ written ss) c c' := by
  induction h generalizing known b' with
  | nil => exact ⟨b', .nil, by rwa [written_nil, List.append_nil]⟩
  | cons first _ ih =>
    obtain ⟨c', hc', agree'⟩ := first.transfer order.1
      (fun g e => suited g (e ▸ List.mem_cons_self ..)) agree
    obtain ⟨d', hd', agree''⟩ := ih order.2.2.2
      (fun g hg => suited g (List.mem_cons_of_mem _ hg)) agree'
    exact ⟨d', .cons hc' hd', by rwa [written_cons, ← List.append_assoc]⟩

theorem Breaks.transfer {ss : List Step} (h : Breaks s ss b) (order : InOrder known ss)
    (suited : Suited s ss) (agree : Bindings.Agree known b b') : Breaks s ss b' := by
  induction h generalizing known b' with
  | here fails => exact .here (fails.transfer order.1 agree)
  | later first _ ih =>
    obtain ⟨c', hc', agree'⟩ := first.transfer order.1
      (fun g e => suited g (e ▸ List.mem_cons_self ..)) agree
    exact .later hc' (ih order.2.2.2 (fun g hg => suited g (List.mem_cons_of_mem _ hg)) agree')

/-- More facts do not mend what breaks. -/
theorem Breaks.mono {s' : Scene} (h : s.Within s') {ss : List Step} (hb : Breaks s ss b) :
    Breaks s' ss b := by
  induction hb with
  | here fails => exact .here (h.functions ▸ fails)
  | later first _ ih => exact .later (first.mono h) ih

end Step

/-! ## What is due -/

/-- **The tuple is due**: the steps lead to bindings for which the head has no other values, or they
break.  So where there is a fault, any tuple is due. -/
def Head.Due (s : Scene) (head : Head) (steps : List Step) (b : Bindings) (tuple : Tuple) : Prop :=
  (∃ c, Step.Path s steps b c ∧
    ∀ values, Tuple.evaluate c s.functions head.args = .ok values → values = tuple) ∨
      Step.Breaks s steps b

/-- The head's values depend on what it reads. -/
theorem Tuple.evaluate_congr {fns : Functions} {b c : Bindings} {args : Tuple}
    (h : Bindings.Agree (Term.occurrencesOf args) b c) :
    Tuple.evaluate b fns args = Tuple.evaluate c fns args :=
  Outcome.mapM_congr fun t ht =>
    Term.evaluate_congr fun v hv => h v (Term.mem_occurrencesOf.2 ⟨t, ht, hv⟩)

namespace Head.Due

variable {s s' : Scene} {head : Head} {steps : List Step} {b b' : Bindings} {tuple : Tuple}

/-- What the steps lead to is due. -/
theorem of_path {c : Bindings} (path : Step.Path s steps b c)
    (value : Tuple.evaluate c s.functions head.args = .ok tuple) : head.Due s steps b tuple :=
  .inl ⟨c, path, fun _ value' => Except.ok.inj (value'.symm.trans value)⟩

theorem mono (h : s.Within s') (due : head.Due s steps b tuple) : head.Due s' steps b tuple := by
  refine due.imp ?_ (·.mono h)
  rintro ⟨c, path, value⟩
  exact ⟨c, path.mono h, h.functions ▸ value⟩

theorem nil_iff : head.Due s [] b tuple ↔
    ∀ values, Tuple.evaluate b s.functions head.args = .ok values → values = tuple := by
  refine ⟨?_, fun value => .inl ⟨b, .nil, value⟩⟩
  rintro (⟨_, ⟨⟩, value⟩ | breaks)
  · exact value
  · cases breaks

/-- **What is due at a step** is due where it leads, unless it fails. -/
theorem cons_iff {step : Step} : head.Due s (step :: steps) b tuple ↔
    step.Fails s.functions b ∨ ∃ c, step.Leads s b c ∧ head.Due s steps c tuple := by
  constructor
  · rintro (⟨_, _ | ⟨first, rest⟩, value⟩ | fails | ⟨first, rest⟩)
    · exact .inr ⟨_, first, .inl ⟨_, rest, value⟩⟩
    · exact .inl fails
    · exact .inr ⟨_, first, .inr rest⟩
  · rintro (fails | ⟨c, first, ⟨d, rest, value⟩ | rest⟩)
    · exact .inr (.here fails)
    · exact .inl ⟨d, .cons first rest, value⟩
    · exact .inr (.later first rest)

/-- **What is due depends on what the steps and the head read.** -/
theorem transfer {known : List Var} (due : head.Due s steps b tuple)
    (order : Step.InOrder known steps) (suited : Step.Suited s steps)
    (reads : Term.occurrencesOf head.args ⊆ known ++ Step.written steps)
    (agree : Bindings.Agree known b b') : head.Due s steps b' tuple := by
  refine due.imp ?_ (·.transfer order suited agree)
  rintro ⟨c, path, value⟩
  obtain ⟨c', path', agree'⟩ := path.transfer order suited agree
  exact ⟨c', path', Tuple.evaluate_congr (agree'.subset reads) ▸ value⟩

end Head.Due

end Datalog
