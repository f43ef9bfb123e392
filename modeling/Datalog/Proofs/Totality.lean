import Datalog.Proofs.Flow
import Datalog.Rule.Basic

/-!
# Proofs/Totality — where nothing can fail

If the functions called give values for values, a term over values has a value, and it is one
without variables and calls.  Steps in order over a store of such values never fail then
(`Step.not_breaks`).
-/

namespace Datalog

namespace Term

/-- A term calls what it called before, or what was put in for its variables. -/
theorem calls_substitute {σ : Bindings} {C : List (String × Nat)}
    (hσ : ∀ v u, σ.get? v = some u → u.calls ⊆ C) {t : Term} (ht : t.calls ⊆ C) :
    (t.substitute σ).calls ⊆ C := by
  have all {args : List Term} (ih : ∀ a ∈ args, a.calls ⊆ C → (a.substitute σ).calls ⊆ C)
      (h : callsOf args ⊆ C) : callsOf (substituteAll σ args) ⊆ C := by
    intro e he
    rw [substituteAll_eq_map] at he
    obtain ⟨_, hmem, he⟩ := mem_callsOf.1 he
    obtain ⟨a, ha, rfl⟩ := List.mem_map.1 hmem
    exact ih a ha (fun x hx => h (mem_callsOf.2 ⟨a, ha, hx⟩)) he
  induction t with
  | var v =>
    rw [substitute]
    cases hv : σ.get? v with
    | none => exact ht
    | some u => exact hσ v u hv
  | lit v => exact ht
  | ctor f args ih => exact all ih ht
  | call f args ih =>
    have hlen : (substituteAll σ args).length = args.length := by
      rw [substituteAll_eq_map, List.length_map]
    rw [substitute, calls, hlen]
    rw [calls] at ht
    exact List.cons_subset.2 ⟨(List.cons_subset.1 ht).1, all ih (List.cons_subset.1 ht).2⟩

end Term

/-- **The functions give values for values** in these calls. -/
def Functions.TotalOn (fns : Functions) (calls : List (String × Nat)) : Prop :=
  ∀ f n, (f, n) ∈ calls → ∀ xs : Tuple, xs.length = n → (∀ x ∈ xs, x.isValue = true) →
    ∃ y, fns.call f xs = .ok y ∧ y.isValue = true

namespace Term

variable {env : Env} {fns : Functions}

/-- A constructor of values is a value. -/
theorem isValue_ctor_iff {f : String} {xs : List Term} :
    (ctor f xs).isValue = true ↔ ∀ x ∈ xs, x.isValue = true := by
  have hocc : occurrencesOf xs = [] ↔ ∀ x ∈ xs, x.occurrences = [] := by
    rw [occurrencesOf_eq_flatMap, List.flatMap_eq_nil_iff]
  have hfun : functionsOf xs = [] ↔ ∀ x ∈ xs, x.functions = [] := by
    rw [functionsOf_eq_flatMap, List.flatMap_eq_nil_iff]
  simp only [isValue, isGround, isCallFree, occurrences, functions, Bool.and_eq_true,
    List.isEmpty_iff, hocc, hfun]
  exact ⟨fun h x hx => ⟨h.1 x hx, h.2 x hx⟩, fun h => ⟨fun x hx => (h x hx).1, fun x hx => (h x hx).2⟩⟩

/-- **Terms over values have values**, if the functions they call do. -/
theorem exists_value {t : Term} (total : fns.TotalOn t.calls)
    (henv : ∀ v ∈ t.occurrences, ∃ x, env v = some x ∧ x.isValue = true) :
    ∃ x, t.value? env fns = some x ∧ x.isValue = true := by
  have all {args : List Term}
      (ih : ∀ a ∈ args, fns.TotalOn a.calls →
        (∀ v ∈ a.occurrences, ∃ x, env v = some x ∧ x.isValue = true) →
        ∃ x, a.value? env fns = some x ∧ x.isValue = true)
      (total : fns.TotalOn (callsOf args))
      (henv : ∀ v ∈ occurrencesOf args, ∃ x, env v = some x ∧ x.isValue = true) :
      ∃ xs, values? env fns args = some xs ∧ xs.length = args.length ∧
        ∀ x ∈ xs, x.isValue = true := by
    induction args with
    | nil => exact ⟨[], rfl, rfl, nofun⟩
    | cons a as ihas =>
      obtain ⟨x, hx, hval⟩ := ih a (List.mem_cons_self ..)
        (fun f n h => total f n (List.mem_append_left _ h))
        fun v hv => henv v (List.mem_append_left _ hv)
      obtain ⟨xs, hxs, hlen, hvals⟩ := ihas (fun b hb => ih b (List.mem_cons_of_mem _ hb))
        (fun f n h => total f n (List.mem_append_right _ h))
        fun v hv => henv v (List.mem_append_right _ hv)
      refine ⟨x :: xs, ?_, by rw [List.length_cons, List.length_cons, hlen], ?_⟩
      · rw [values?_eq_some_iff] at hxs ⊢
        exact .cons hx hxs
      · exact List.forall_mem_cons.2 ⟨hval, hvals⟩
  induction t with
  | var v => simpa using henv v (List.mem_singleton.2 rfl)
  | lit v => exact ⟨.lit v, rfl, rfl⟩
  | ctor f args ih =>
    obtain ⟨xs, hxs, _, hvals⟩ := all ih total henv
    exact ⟨.ctor f xs, by rw [value?_ctor, hxs]; rfl, isValue_ctor_iff.2 hvals⟩
  | call f args ih =>
    obtain ⟨xs, hxs, hlen, hvals⟩ := all ih
      (fun g n h => total g n (List.mem_cons_of_mem _ h)) henv
    obtain ⟨y, hy, hval⟩ := total f args.length (List.mem_cons_self ..) xs hlen hvals
    refine ⟨y, ?_, hval⟩
    rw [value?_call, hxs, Option.bind_some, hy]
    rfl

end Term

/-! ## Steps -/

/-- Each of the variables is bound to a value. -/
def Bindings.Valued (vs : List Var) (b : Bindings) : Prop :=
  ∀ v ∈ vs, ∃ x, b.get? v = some x ∧ x.isValue = true

/-- The tuples that goals range over consist of values. -/
def Scene.Ground (s : Scene) : Prop := ∀ g t, s.Offers g t → ∀ x ∈ t, x.isValue = true

namespace Step

/-- The terms that a step evaluates. -/
def terms : Step → List Term
  | assign _ t => [t]
  | check l r _ => [l, r]
  | destruct t _ _ => [t]
  | lookup g => g.args.flatMap fun arg => match arg with
    | .bound t => [t]
    | _ => []

theorem mem_terms_lookup {g : Goal} {t : Term} : t ∈ (lookup g).terms ↔ .bound t ∈ g.args := by
  rw [terms, List.mem_flatMap]
  constructor
  · rintro ⟨arg, harg, ht⟩
    cases arg with
    | bound u =>
      obtain rfl := List.mem_singleton.1 ht
      exact harg
    | free | ignored => cases ht
  · exact fun h => ⟨_, h, List.mem_singleton.2 rfl⟩

/-- A step reads what occurs in its terms. -/
theorem occurrences_subset_reads {step : Step} {t : Term} (ht : t ∈ step.terms) :
    t.occurrences ⊆ step.reads := by
  cases step with
  | assign | destruct =>
    obtain rfl := List.mem_singleton.1 ht
    exact List.Subset.refl _
  | check l r negated =>
    rcases List.mem_cons.1 ht with rfl | ht
    · exact List.subset_append_left ..
    · obtain rfl := List.mem_singleton.1 ht
      exact List.subset_append_right ..
  | lookup g => exact fun v hv => List.mem_flatMap.2 ⟨_, mem_terms_lookup.1 ht, hv⟩

/-- A step fails if one of its terms has no value. -/
theorem fails_iff {fns : Functions} {b : Bindings} {step : Step} :
    step.Fails fns b ↔ ∃ t ∈ step.terms, t.value? b.get? fns = none := by
  cases step with
  | assign | destruct | check => simp [Fails, terms]
  | lookup g =>
    simp only [Fails, mem_terms_lookup]

variable {s : Scene} {b c : Bindings} {known : List Var}

/-- **A step over values binds values.** -/
theorem Leads.valued {step : Step} (h : Leads s step b c) (ground : s.Ground)
    (total : ∀ t ∈ step.terms, s.functions.TotalOn t.calls) (reads : step.reads ⊆ known)
    (suits : ∀ g, step = .lookup g → s.Suits g) (order : step.writes.Nodup)
    (hb : b.Valued known) : Bindings.Valued step.writes c := by
  have value {t x : Term} (ht : t ∈ step.terms) (hx : t.value? b.get? s.functions = some x) :
      x.isValue = true := by
    obtain ⟨y, hy, hval⟩ := Term.exists_value (total t ht)
      fun v hv => hb v (reads (occurrences_subset_reads ht hv))
    obtain rfl : x = y := Option.some.inj (hx.symm.trans hy)
    exact hval
  cases h with
  | @assign v t _ _ h =>
    obtain ⟨x, hx, rfl⟩ := leads_assign_iff.1 (.assign (s := s) h)
    intro w hw
    obtain rfl := List.mem_singleton.1 hw
    exact ⟨x, by rw [Assoc.get?_put, if_pos rfl], value (List.mem_singleton.2 rfl) hx⟩
  | check => exact fun v hv => absurd hv List.not_mem_nil
  | @destruct t f ys _ _ h =>
    obtain ⟨xs, hx, hlen, rfl⟩ := leads_destruct_iff.1 (.destruct (s := s) h)
    have hxs := Term.isValue_ctor_iff.1 (value (List.mem_singleton.2 rfl) hx)
    have hys : (ys.zip xs).map Prod.fst = ys := List.map_fst_zip (Nat.le_of_eq hlen.symm)
    intro v hv
    obtain ⟨e, he, rfl⟩ := List.mem_map.1 (hys.symm ▸ hv : v ∈ (ys.zip xs).map Prod.fst)
    refine ⟨e.2, Assoc.get?_putAll_of_mem ?_ he, hxs _ (List.of_mem_zip he).2⟩
    rw [hys]
    exact order
  | @found g _ key tuple positive _ offered _ =>
    have hws := Goal.map_fst_bindingsOf (Nat.le_of_eq ((suits g rfl).offered tuple offered).symm)
    rw [writes, positive, if_neg Bool.false_ne_true] at order ⊢
    intro v hv
    obtain ⟨e, he, rfl⟩ := List.mem_map.1 (hws.symm ▸ hv : v ∈ (g.bindingsOf tuple).map Prod.fst)
    refine ⟨e.2, ?_, ?_⟩
    · rw [Goal.bind_eq_putAll]
      refine Assoc.get?_putAll_of_mem ?_ he
      rwa [hws]
    · obtain ⟨p, hp, he⟩ := List.mem_flatMap.1 he
      obtain ⟨w, _, rfl⟩ := List.mem_map.1 he
      exact ground g tuple offered _ (List.of_mem_zip hp).2
  | absent negated _ _ =>
    rw [writes, if_pos negated]
    exact fun v hv => absurd hv List.not_mem_nil

variable {ss : List Step}

/-- Values stay values along a path. -/
theorem Path.valued (h : Path s ss b c) (ground : s.Ground)
    (total : ∀ step ∈ ss, ∀ t ∈ step.terms, s.functions.TotalOn t.calls)
    (order : InOrder known ss) (suited : Suited s ss) (hb : b.Valued known) :
    c.Valued (known ++ written ss) := by
  induction h generalizing known with
  | nil => rwa [written_nil, List.append_nil]
  | @cons step ss b c d first rest ih =>
    rw [written_cons, ← List.append_assoc]
    refine ih (fun step' h => total step' (List.mem_cons_of_mem _ h)) order.2.2.2
      (fun g hg => suited g (List.mem_cons_of_mem _ hg)) fun v hv => ?_
    rcases List.mem_append.1 hv with hv | hv
    · rw [first.get?_eq (order.2.1 hv)]
      exact hb v hv
    · exact first.valued ground (total step (List.mem_cons_self ..)) order.1
        (fun g e => suited g (e ▸ List.mem_cons_self ..)) order.2.2.1 hb v hv

/-- **Steps in order over values never break** if the functions are total. -/
theorem not_breaks (ground : s.Ground)
    (total : ∀ step ∈ ss, ∀ t ∈ step.terms, s.functions.TotalOn t.calls)
    (order : InOrder known ss) (suited : Suited s ss) (hb : b.Valued known) :
    ¬Breaks s ss b := by
  intro h
  induction h generalizing known with
  | @here step ss b fails =>
    obtain ⟨t, ht, hn⟩ := fails_iff.1 fails
    obtain ⟨x, hx, _⟩ := Term.exists_value (total step (List.mem_cons_self ..) t ht)
      fun v hv => hb v (order.1 (occurrences_subset_reads ht hv))
    rw [hn] at hx
    cases hx
  | @later step ss b c first rest ih =>
    refine ih (fun step' h => total step' (List.mem_cons_of_mem _ h)) order.2.2.2
      (fun g hg => suited g (List.mem_cons_of_mem _ hg)) fun v hv => ?_
    rcases List.mem_append.1 hv with hv | hv
    · rw [first.get?_eq (order.2.1 hv)]
      exact hb v hv
    · exact first.valued ground (total step (List.mem_cons_self ..)) order.1
        (fun g e => suited g (e ▸ List.mem_cons_self ..)) order.2.2.1 hb v hv

end Step

end Datalog
