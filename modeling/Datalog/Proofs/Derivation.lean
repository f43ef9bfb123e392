import Datalog.Meaning.Naive
import Datalog.Proofs.Flow

/-!
# Proofs/Derivation — what a derivation depends on

A derivation takes finitely many tuples from its goals, finds others absent, and calls functions.
It carries over wherever all of this comes out the same (`Clause.Derives.imp`), and what is
derived from a growing chain of facts is derived from one of its members
(`Clause.Derives.exists_of_chain`).  So the least closed set of facts is what naive rounds arrive
at (`Facts.closure_iff_naive`).
-/

namespace Datalog

/-! ## Functions -/

/-- **Wherever the first registry gives a value**, the second gives the same. -/
def Functions.Within (fns fns' : Functions) : Prop :=
  ∀ name args x, fns.call name args = .ok x → fns'.call name args = .ok x

variable {fns fns' : Functions} {b c : Bindings}

theorem Functions.Within.refl (fns : Functions) : fns.Within fns := fun _ _ _ h => h

namespace Term

/-- **A value stays** where functions give no fewer values. -/
theorem value?_mono (h : fns.Within fns') {env : Env} {t x : Term}
    (ht : t.value? env fns = some x) : t.value? env fns' = some x := by
  have all {args : List Term} (ih : ∀ a ∈ args, ∀ {x : Term}, a.value? env fns = some x →
      a.value? env fns' = some x) {xs : List Term} (hxs : values? env fns args = some xs) :
      values? env fns' args = some xs := by
    rw [values?_eq_some_iff] at hxs ⊢
    induction hxs with
    | nil => exact .nil
    | cons ha _ ihas =>
      exact .cons (ih _ (List.mem_cons_self ..) ha)
        (ihas fun a ha => ih a (List.mem_cons_of_mem _ ha))
  induction t generalizing x with
  | var v => rwa [value?_var] at ht ⊢
  | lit v => exact ht
  | ctor f args ih =>
    rw [value?_ctor, Option.map_eq_some_iff] at ht ⊢
    obtain ⟨xs, hxs, rfl⟩ := ht
    exact ⟨xs, all ih hxs, rfl⟩
  | call f args ih =>
    rw [value?_call, Option.bind_eq_some_iff] at ht ⊢
    obtain ⟨xs, hxs, ht⟩ := ht
    refine ⟨xs, all ih hxs, ?_⟩
    rw [Outcome.toOption_eq_some_iff] at ht ⊢
    exact h f xs x ht

theorem values?_mono (h : fns.Within fns') {env : Env} {ts xs : List Term}
    (hts : values? env fns ts = some xs) : values? env fns' ts = some xs := by
  rw [values?_eq_some_iff] at hts ⊢
  exact hts.imp fun _ _ => value?_mono h

end Term

theorem Goal.key_mono (h : fns.Within fns') {g : Goal} {key : Key} (hkey : g.key fns b = .ok key) :
    g.key fns' b = .ok key := by
  rw [key_eq_ok_iff] at hkey ⊢
  refine hkey.imp fun arg k hk => ?_
  cases arg with
  | bound t =>
    obtain ⟨x, hx, hk⟩ := hk
    exact ⟨x, Term.value?_mono h hx, hk⟩
  | free v => exact hk
  | ignored v => exact hk

/-! ## Scenes -/

/-- **The second scene does for the steps what the first does**: functions give the same values,
their goals are offered no less, and what they find absent is absent. -/
structure Scene.Serves (s s' : Scene) (steps : List Step) : Prop where
  functions : s.functions.Within s'.functions
  offers : ∀ g, .lookup g ∈ steps → ∀ t, s.Offers g t → s'.Offers g t
  absent : ∀ g, .lookup g ∈ steps → g.negated = true → ∀ t, s'.absent g.relation t →
    s.absent g.relation t

variable {s s' : Scene} {steps : List Step} {step : Step}

theorem Scene.Serves.head (h : s.Serves s' (step :: steps)) : s.Serves s' [step] :=
  ⟨h.functions, fun g hg => h.offers g (List.mem_singleton.1 hg ▸ List.mem_cons_self ..),
    fun g hg => h.absent g (List.mem_singleton.1 hg ▸ List.mem_cons_self ..)⟩

theorem Scene.Serves.tail (h : s.Serves s' (step :: steps)) : s.Serves s' steps :=
  ⟨h.functions, fun g hg => h.offers g (List.mem_cons_of_mem _ hg),
    fun g hg => h.absent g (List.mem_cons_of_mem _ hg)⟩

theorem Step.Leads.imp (h : step.Leads s b c) (serves : s.Serves s' [step]) :
    step.Leads s' b c := by
  cases step with
  | assign v t =>
    obtain ⟨x, hx, rfl⟩ := Step.leads_assign_iff.1 h
    exact Step.leads_assign_iff.2 ⟨x, Term.value?_mono serves.functions hx, rfl⟩
  | check l r negated =>
    obtain ⟨rfl, x, y, hx, hy, hxy⟩ := Step.leads_check_iff.1 h
    exact Step.leads_check_iff.2 ⟨rfl, x, y, Term.value?_mono serves.functions hx,
      Term.value?_mono serves.functions hy, hxy⟩
  | destruct t f ys =>
    obtain ⟨xs, hx, hlen, rfl⟩ := Step.leads_destruct_iff.1 h
    exact Step.leads_destruct_iff.2 ⟨xs, Term.value?_mono serves.functions hx, hlen, rfl⟩
  | lookup g =>
    have hg : Step.lookup g ∈ [Step.lookup g] := List.mem_singleton.2 rfl
    cases h with
    | found positive hkey offered agrees =>
      exact .found positive (Goal.key_mono serves.functions hkey) (serves.offers g hg _ offered)
        agrees
    | absent negated hkey none =>
      exact .absent negated (Goal.key_mono serves.functions hkey)
        fun t ht => none t (serves.absent g hg negated t ht)

theorem Step.Path.imp (h : Step.Path s steps b c) (serves : s.Serves s' steps) :
    Step.Path s' steps b c := by
  induction h with
  | nil => exact .nil
  | cons first _ ih => exact .cons (first.imp serves.head) (ih serves.tail)

/-- **A derivation carries over** to any scene that serves its steps. -/
theorem Clause.Derives.imp {c : Clause} {tuple : Tuple} (h : c.Derives s tuple)
    (serves : s.Serves s' c.body) : c.Derives s' tuple := by
  obtain ⟨b, path, value⟩ := h
  refine ⟨b, path.imp serves, ?_⟩
  rw [Tuple.evaluate_eq_ok_iff] at value ⊢
  exact Term.values?_mono serves.functions value

/-! ## Faults -/

/-- **The clause faults**: some path through its body comes to a step that fails, or to the end,
and the head has no values there. -/
def Clause.Faults (s : Scene) (c : Clause) : Prop :=
  Step.Breaks s c.body ∅ ∨
    ∃ b, Step.Path s c.body ∅ b ∧ ∀ tuple, Tuple.evaluate b s.functions c.head.args ≠ .ok tuple

theorem Step.Breaks.imp (h : Step.Breaks s steps b) (functions : s'.functions = s.functions)
    (serves : s.Serves s' steps) : Step.Breaks s' steps b := by
  induction h with
  | here fails => exact .here (functions ▸ fails)
  | later first _ ih => exact .later (first.imp serves.head) (ih serves.tail)

/-- **A fault carries over** to any scene with the same functions that serves the steps. -/
theorem Clause.Faults.imp {c : Clause} (h : c.Faults s) (functions : s'.functions = s.functions)
    (serves : s.Serves s' c.body) : c.Faults s' := by
  rcases h with breaks | ⟨b, path, none⟩
  · exact .inl (breaks.imp functions serves)
  · exact .inr ⟨b, path.imp serves, functions ▸ none⟩

section

variable {A B F G : Facts} {clause : Clause} {tuple : Tuple}

/-- Without a seed every goal is offered facts. -/
theorem Scene.offers_over {g : Goal} : (Scene.over fns A F).Offers g tuple ↔ F g.relation tuple := by
  rw [Scene.Offers]
  cases g.delta <;> rfl

/-- Scenes without a seed. -/
theorem Scene.over_serves (functions : fns.Within fns') (facts : F.Within G)
    (absent : ∀ g, .lookup g ∈ steps → g.negated = true → ∀ t, B g.relation t → A g.relation t) :
    (Scene.over fns A F).Serves (.over fns' B G) steps :=
  ⟨functions, fun _ _ t ht => offers_over.2 (facts _ t (offers_over.1 ht)), absent⟩

/-! ## Chains -/

/-- **What is derived from a growing chain of facts** is derived from one of them. -/
theorem Clause.Derives.exists_of_chain {chain : Nat → Facts}
    (grows : ∀ {m n : Nat}, m ≤ n → (chain m).Within (chain n))
    (h : clause.Derives (.over fns A fun r t => ∃ n, chain n r t) tuple) :
    ∃ n, clause.Derives (.over fns A (chain n)) tuple := by
  have later {m n : Nat} (h : m ≤ n) {steps : List Step} :
      (Scene.over fns A (chain m)).Serves (.over fns A (chain n)) steps :=
    Scene.over_serves (.refl fns) (grows h) fun _ _ _ _ ht => ht
  have step {st : Step} {b c : Bindings}
      (h : st.Leads (.over fns A fun r t => ∃ n, chain n r t) b c) :
      ∃ n, st.Leads (.over fns A (chain n)) b c := by
    cases h with
    | assign h => exact ⟨0, .assign h⟩
    | check h => exact ⟨0, .check h⟩
    | destruct h => exact ⟨0, .destruct h⟩
    | absent negated hkey none => exact ⟨0, .absent negated hkey none⟩
    | @found g _ _ _ positive hkey offered agrees =>
      obtain ⟨n, hn⟩ := Scene.offers_over.1 offered
      exact ⟨n, .found positive hkey (Scene.offers_over.2 hn) agrees⟩
  obtain ⟨b, path, value⟩ := h
  obtain ⟨n, path⟩ : ∃ n, Step.Path (.over fns A (chain n)) clause.body ∅ b := by
    clear value
    generalize (∅ : Bindings) = b₀ at path ⊢
    generalize clause.body = steps at path ⊢
    induction path with
    | nil => exact ⟨0, .nil⟩
    | cons first _ ih =>
      obtain ⟨m, first⟩ := step first
      obtain ⟨n, rest⟩ := ih
      exact ⟨max m n, .cons (first.imp (later (Nat.le_max_left ..)))
        (rest.imp (later (Nat.le_max_right ..)))⟩
  exact ⟨n, b, path, value⟩

end

/-! ## Closures -/

namespace Facts

variable {clauses : List Clause} {start mid F : Facts} {r : Relation} {t : Tuple}

/-- **The closure adds nothing but heads.** -/
theorem closure_heads (h : closure fns clauses start r t) :
    start r t ∨ ∃ c ∈ clauses, c.head.relation = r :=
  h (fun r t => start r t ∨ ∃ c ∈ clauses, c.head.relation = r) (fun _ _ => .inl)
    fun c hc _ _ => .inr ⟨c, hc, rfl⟩

/-- With functions that give no fewer values the closure is no smaller. -/
theorem closure_of_within (functions : fns.Within fns') :
    (closure fns clauses start).Within (closure fns' clauses start) := by
  refine closure_within start_within_closure fun c hc tuple hd => ?_
  exact closed_closure c hc tuple (hd.imp (Scene.over_serves functions (.refl _) fun _ _ _ _ h => h))

/-- **The closure can be taken up half-way**: facts between the start and the closure have the same
closure, if no clause asks for the absence of what a clause derives. -/
theorem closure_of_between (static : Clause.Static clauses) (above : start.Within mid)
    (below : mid.Within (closure fns clauses start)) :
    closure fns clauses mid r t ↔ closure fns clauses start r t := by
  have same {c : Clause} (hc : c ∈ clauses) (g : Goal) (hg : .lookup g ∈ c.body)
      (hn : g.negated = true) (t : Tuple) : mid g.relation t ↔ start g.relation t := by
    refine ⟨fun h => (closure_heads (below _ _ h)).resolve_right ?_, above _ _⟩
    rintro ⟨k, hk, hr⟩
    exact static c hc g hg hn k hk hr
  constructor
  · refine closure_within below (fun c hc tuple hd => closed_closure c hc tuple ?_) r t
    exact hd.imp (Scene.over_serves (.refl fns) (.refl _) fun g hg hn t => (same hc g hg hn t).2)
  · refine closure_within (above.trans start_within_closure) (fun c hc tuple hd => ?_) r t
    refine closed_closure c hc tuple (hd.imp ?_)
    exact Scene.over_serves (.refl fns) (.refl _) fun g hg hn t => (same hc g hg hn t).1

/-! ## Naive rounds -/

/-- What rounds leave is the same where no clause derives anything. -/
theorem naive_iterate_iff (hr : ∀ c ∈ clauses, c.head.relation ≠ r) {n : Nat} :
    (naive fns clauses)^[n] start r t ↔ start r t := by
  refine ⟨fun h => (naive_iterate_heads h).resolve_right ?_,
    naive_iterate_within (Nat.zero_le n) r t⟩
  rintro ⟨c, hc, rfl⟩
  exact hr c hc rfl

/-- **The least closed set of facts is what naive rounds arrive at**, if no clause asks for the
absence of what a clause derives. -/
theorem closure_iff_naive (static : Clause.Static clauses) :
    closure fns clauses start r t ↔ ∃ n, (naive fns clauses)^[n] start r t := by
  have same {c : Clause} (hc : c ∈ clauses) {n : Nat} (g : Goal) (hg : .lookup g ∈ c.body)
      (hn : g.negated = true) (t : Tuple) :
      (naive fns clauses)^[n] start g.relation t ↔ start g.relation t :=
    naive_iterate_iff (static c hc g hg hn)
  constructor
  · -- the union of the rounds is closed
    refine fun h => h (fun r t => ∃ n, (naive fns clauses)^[n] start r t)
      (fun r t ht => ⟨0, ht⟩) fun c hc tuple hd => ?_
    obtain ⟨n, hd⟩ := hd.exists_of_chain naive_iterate_within
    refine ⟨n + 1, ?_⟩
    rw [Function.iterate_succ_apply']
    exact .inr ⟨c, hc, rfl, hd.imp (Scene.over_serves (.refl fns) (.refl _)
      fun g hg hn t => (same hc g hg hn t).1)⟩
  · rintro ⟨n, h⟩
    induction n generalizing r t with
    | zero => exact start_within_closure r t h
    | succ n ih =>
      rw [Function.iterate_succ_apply'] at h
      rcases h with h | ⟨c, hc, rfl, hd⟩
      · exact ih h
      · refine closed_closure c hc t (hd.imp (Scene.over_serves (.refl fns) (fun r t h => ih h) ?_))
        exact fun g hg hn t => (same hc g hg hn t).2

end Facts

end Datalog
