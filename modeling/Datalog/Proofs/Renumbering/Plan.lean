import Datalog.Proofs.Planning
import Datalog.Proofs.Renumbering.Clause

/-!
# Proofs/Renumbering/Plan — the same plan from another counter

Rules that are planned from a later counter, over a store with indices of its own, give a stratum
that corresponds to the one they give otherwise: the invented variables have later numbers, and
lookups go through indices that stand for the same.  If a rule is refused it is refused either way,
and what planning has done up to then corresponds as well (`Stratum.plan_like`).
-/

namespace Datalog

open Outcome (InStep)

variable {k : Relation → Nat} {n m : Nat}

/-! ## Compiling -/

/-- **From a counter that is later by `m`** everything invented is later by `m`. -/
theorem Rule.compile_shift {mode : Unification} {delta : Option Nat} {rule : Rule} {next : Nat}
    (below : ∀ v ∈ rule.occurrences, v.number < n) (hn : n ≤ next) (m : Nat) :
    (∀ c u, rule.compile mode delta next = .ok c u →
      rule.compile mode delta (next + m) = .ok (c.rename (Var.shift n m)) (u + m)) ∧
    ∀ e u, rule.compile mode delta next = .error e u →
      rule.compile mode delta (next + m) = .error (e.rename (Var.shift n m)) (u + m) := by
  have fixed : rule.rename (Var.shift n m) = rule :=
    rename_eq_self fun v hv => Var.shift_of_lt (below v hv)
  have moved {u : Nat} (hu : n ≤ u) (i : Nat) :
      Var.shift n m (.fresh (u + i)) = .fresh (u + m + i) := by
    obtain ⟨j, rfl⟩ := Nat.exists_eq_add_of_le hu
    rw [Nat.add_assoc, Var.shift_fresh]
    exact congrArg Var.fresh (by omega)
  have same {u u' : Nat} (hu : n ≤ u) (fresh : ∀ i, Var.shift n m (.fresh (u + i)) = .fresh (u' + i)) :
      u' = u + m :=
    congrArg Var.number ((fresh 0).symm.trans (moved hu 0))
  obtain ⟨accepted, refused⟩ := @compile_rename _ mode delta rule next (next + m)
    (Var.shift_injective n m) (moved hn)
  rw [fixed] at accepted refused
  constructor
  · intro c u ok
    obtain ⟨u', renamed, fresh⟩ := accepted c u ok
    rw [renamed, same (hn.trans (next_le_of_compile ok)) fresh]
  · intro e u error
    obtain ⟨u', renamed, fresh⟩ := refused e u error
    rw [renamed, same (hn.trans (next_le_of_refused error)) fresh]

/-! ## Planning in step -/

/-- **Told apart by later indices and a later counter.** -/
structure PlanState.Like (k : Relation → Nat) (n m : Nat) (st st' : PlanState) : Prop where
  store : st.store.Abreast k st'.store
  next : st'.next = st.next + m
  least : n ≤ st.next

/-- The same error, with invented variables renamed. -/
inductive PlanError.RenamedBy (ρ : Var → Var) : PlanError → PlanError → Prop
  | rejected (e : Rejection) : RenamedBy ρ (.rejected e) (.rejected (e.rename ρ))
  | misfit (misfit : Misfit) : RenamedBy ρ (.misfit misfit) (.misfit misfit)

/-- What is known of a clause and its counterpart. -/
def Clause.Shifted (n m : Nat) (c c' : Clause) : Prop := c' = c.rename (Var.shift n m) ∧ c.Orderly

namespace Plan

/-- **The same planning**, from states that correspond. -/
abbrev Like {α β : Type} (k : Relation → Nat) (n m : Nat) (R : α → β → Prop) (x : Plan α)
    (y : Plan β) : Prop :=
  InStep (PlanState.Like k n m) (PlanError.RenamedBy (Var.shift n m)) R x y

variable {mode : Unification} {fns : Functions} {heads : List Relation} {rule : Rule}

theorem compile_like {delta : Option Nat} (below : ∀ v ∈ rule.occurrences, v.number < n) :
    Like k n m (Clause.Shifted n m) (compile mode delta rule) (compile mode delta rule) := by
  intro st st' h
  obtain ⟨accepted, refused⟩ := @Rule.compile_shift n mode delta rule st.next below h.least m
  rw [compile, compile, h.next]
  cases outcome : rule.compile mode delta st.next with
  | ok c u =>
    have orderly : c.Orderly :=
      Rule.orderly_of_compile (fun v hv => Nat.lt_of_lt_of_le (below v hv) h.least) outcome
    rw [accepted c u outcome]
    exact .ok ⟨h.store, rfl, h.least.trans (Rule.next_le_of_compile outcome)⟩ ⟨rfl, orderly⟩
  | error e u =>
    rw [refused e u outcome]
    exact .error ⟨h.store, rfl, h.least.trans (Rule.next_le_of_refused outcome)⟩ (.rejected e)

/-- **A step and its counterpart** get indices that stand for the same. -/
theorem indexOf_like {step : Step}
    (goals : ∀ g, step = .lookup g → g.args.length = g.relation.arity) :
    Like k n m (fun i j => ∀ g, step = .lookup g → IndexNumber.Like (k g.relation) i j)
      (indexOf step) (indexOf (step.rename (Var.shift n m))) := by
  cases step with
  | assign | check | destruct => exact .pure nofun
  | lookup g =>
    have register : Like k n m
        (fun i j => ∀ g', Step.lookup g = .lookup g' → IndexNumber.Like (k g'.relation) i j)
        (register g) (register (g.rename (Var.shift n m))) := by
      intro st st' h
      have fits : ∀ p ∈ g.boundPositions, p < g.relation.arity := fun p hp =>
        goals g rfl ▸ lt_of_boundPositions hp
      have both := h.store.register fits
      have relation : (g.rename (Var.shift n m)).relation = g.relation := rfl
      rw [Plan.register, Plan.register, Goal.boundPositions_rename, relation]
      generalize st.store.register g.relation g.boundPositions = x,
        st'.store.register g.relation g.boundPositions = y at both
      cases both with
      | ok registered =>
        refine .ok ⟨registered.1, h.next, h.least⟩ ?_
        rintro _ ⟨⟩
        exact registered.2
      | error same =>
        cases same
        exact .error h (.misfit _)
    rw [Step.rename, indexOf, indexOf]
    exact .ite Iff.rfl (.pure fun _ _ => rfl) register

theorem slots_like (head : Head) : ∀ {steps : List Step},
    (∀ g, .lookup g ∈ steps → g.args.length = g.relation.arity) →
      Like k n m (List.Forall₂ (Slot.Like k (Var.shift n m))) (slots fns head steps)
        (slots fns (head.rename (Var.shift n m)) (steps.map (Step.rename (Var.shift n m))))
  | [], _ => .pure .nil
  | step :: rest, goals => by
    have split : wantsSplit fns (head.rename (Var.shift n m)) (step.rename (Var.shift n m))
        (rest.map (Step.rename (Var.shift n m))) = wantsSplit fns head step rest := by
      rw [wantsSplit, wantsSplit, Step.positiveGoal?_rename, Option.isSome_map, Head.rename,
        List.any_map, List.any_map]
      simp only [Function.comp_def, Step.mentions_rename, Term.mentions_rename]
    rw [List.map_cons, slots, slots, split]
    exact .bind (indexOf_like fun g hg => goals g (hg ▸ List.mem_cons_self ..)) fun i j hij =>
      .bind (slots_like head fun g hg => goals g (List.mem_cons_of_mem _ hg)) fun ss ss' hss =>
        .pure (.cons ⟨rfl, hij, rfl⟩ hss)

theorem index_like {c c' : Clause} (h : c.Shifted n m c') :
    Like k n m (PlannedClause.Like k n) (index fns c) (index fns c') := by
  obtain ⟨rfl, orderly⟩ := h
  exact .bind (slots_like c.head orderly.goals) fun ss ss' hss =>
    .pure ⟨_, .shift n m, rfl, hss, orderly.arity⟩

/-- **A recursive clause** leaves its atom in place on either side, or on neither. -/
theorem deltaClause_like {pre post : List Literal} {a : Atom}
    (below : ∀ v ∈ rule.occurrences, v.number < n) (body : rule.body = pre ++ .atom a :: post) :
    Like k n m (Clause.Shifted n m) (deltaClause mode rule pre.length (.atom a))
      (deltaClause mode rule pre.length (.atom a)) := by
  have below' : ∀ v ∈ (rule.fronted pre a post).occurrences, v.number < n :=
    fun v hv => below v ((Rule.perm_fronted body).mem_iff.1 hv)
  rw [deltaClause_eq body]
  exact .tryCatch (compile_like below') fun _ _ _ => compile_like below

theorem addVariant_like {s s' : Stratum} {l : Literal} {done rest : List Literal}
    (below : ∀ v ∈ rule.occurrences, v.number < n) (body : rule.body = done ++ l :: rest)
    (h : s.Like k n s') :
    Like k n m (Stratum.Like k n) (addVariant mode fns heads rule s (l, done.length))
      (addVariant mode fns heads rule s' (l, done.length)) := by
  cases l with
  | unify => exact .pure h
  | atom a =>
    rw [addVariant, addVariant]
    exact .ite Iff.rfl (.pure h) (.bind (deltaClause_like below body) fun _ _ hc =>
      .bind (index_like hc) fun _ _ hp => .pure (h.addRecursive a.relation hp))

theorem addRule_like {s s' : Stratum} (below : ∀ v ∈ rule.occurrences, v.number < n)
    (h : s.Like k n s') :
    Like k n m (Stratum.Like k n) (addRule mode fns heads s rule)
      (addRule mode fns heads s' rule) := by
  rw [addRule_eq, addRule_eq]
  refine .bind (compile_like below) fun _ _ hc => .bind (index_like hc) fun _ _ hp =>
    .foldlM (fun s s' li hli h => ?_) (h.addBase hp)
  obtain ⟨done, rest, body, numbered⟩ := exists_of_mem_zipIdx hli
  rw [numbered]
  exact addVariant_like below body h

end Plan

/-- **Rules are planned alike**, or refused alike. -/
theorem Stratum.plan_like {mode : Unification} {fns : Functions} {rules : List Rule}
    (below : ∀ rule ∈ rules, ∀ v ∈ rule.occurrences, v.number < n) :
    Plan.Like k n m (Stratum.Like k n) (Stratum.plan mode fns rules)
      (Stratum.plan mode fns rules) := by
  rw [Stratum.plan]
  refine .foldlM (fun s s' rule hr h => ?_) .empty
  exact Plan.addRule_like (below rule hr) h

end Datalog
