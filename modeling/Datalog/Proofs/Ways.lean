import Mathlib.Algebra.BigOperators.Group.List.Basic
import Datalog.Proofs.Flow
import Datalog.Proofs.History
import Datalog.Proofs.Loops

/-!
# Proofs/Ways — what the ways through nested loops come to

Whatever is to be added up over the ways through a body is added up step by step: each complete
match has a weight, and so has each tuple that is taken (`Loops.weigh`).  Where a step leads
somewhere, it leads there from any bindings that have more (`Loops.next_of_within`): a value that
was found does not change for what else is bound.
-/

namespace Datalog

/-- **An index finds what a scan finds**, each tuple once, if in another order. -/
theorem Store.Built.lookup_perm {s : Store} (built : s.Built) {r : Relation} {key : Key}
    {n : IndexNumber} : (s.lookup r key n).Perm ((s.extent r).tuples.filter key.agrees) := by
  have distinct := (built.represented r).distinct.filter key.agrees
  refine (List.perm_ext_iff_of_nodup ((built.represented r).nodup_lookup key n) distinct).2 ?_
  intro t
  rw [List.mem_filter]
  exact built.indexed.mem_lookup_iff

/-! ## Bindings that have more -/

/-- **The second bindings have whatever the first have.** -/
def Bindings.Within (b b' : Bindings) : Prop := ∀ v x, b.get? v = some x → b'.get? v = some x

namespace Bindings.Within

variable {b b' : Bindings} {fns : Functions}

/-- The same pairs put into both. -/
theorem putAll (h : b.Within b') (pairs : List (Var × Term)) :
    Within (b.putAll pairs) (b'.putAll pairs) := by
  induction pairs generalizing b b' with
  | nil => exact h
  | cons e es ih =>
    refine ih fun v x hx => ?_
    rw [Assoc.get?_put] at hx ⊢
    split at hx
    · next hv => rwa [if_pos hv]
    · next hv =>
      rw [if_neg hv]
      exact h v x hx

/-- **A value stays** as more is bound. -/
theorem value? (h : b.Within b') {t x : Term} (hx : t.value? b.get? fns = some x) :
    t.value? b'.get? fns = some x := by
  have all {args xs : List Term}
      (ih : ∀ a ∈ args, ∀ x, a.value? b.get? fns = some x → a.value? b'.get? fns = some x)
      (values : List.Forall₂ (fun a x => a.value? b.get? fns = some x) args xs) :
      List.Forall₂ (fun a x => a.value? b'.get? fns = some x) args xs := by
    induction values with
    | nil => exact .nil
    | cons hx _ ih' =>
      rw [List.forall_mem_cons] at ih
      exact .cons (ih.1 _ hx) (ih' ih.2)
  induction t generalizing x with
  | var v =>
    rw [Term.value?_var] at hx ⊢
    exact h v x hx
  | lit v => exact hx
  | ctor f args ih =>
    rw [Term.value?_ctor_eq_some_iff] at hx ⊢
    obtain ⟨xs, rfl, values⟩ := hx
    exact ⟨xs, rfl, all (fun a ha _ => ih a ha) values⟩
  | call f args ih =>
    rw [Term.value?_call, Option.bind_eq_some_iff] at hx ⊢
    obtain ⟨xs, values, hx⟩ := hx
    rw [Term.values?_eq_some_iff] at values
    exact ⟨xs, Term.values?_eq_some_iff.2 (all (fun a ha _ => ih a ha) values), hx⟩

theorem evaluate (h : b.Within b') {t x : Term} (hx : t.evaluate b fns = .ok x) :
    t.evaluate b' fns = .ok x :=
  Term.evaluate_eq_ok_iff.2 (h.value? (Term.evaluate_eq_ok_iff.1 hx))

theorem tuple (h : b.Within b') {ts xs : Tuple} (hxs : Tuple.evaluate b fns ts = .ok xs) :
    Tuple.evaluate b' fns ts = .ok xs := by
  rw [Tuple.evaluate_eq_ok_iff, Term.values?_eq_some_iff] at hxs ⊢
  exact hxs.imp fun _ _ => h.value?

theorem key (h : b.Within b') {g : Goal} {key : Key} (hkey : g.key fns b = .ok key) :
    g.key fns b' = .ok key := by
  rw [Goal.key_eq_ok_iff] at hkey ⊢
  refine hkey.imp fun arg k hk => ?_
  cases arg with
  | bound t =>
    obtain ⟨x, hx, rfl⟩ := hk
    exact ⟨x, h.value? hx, rfl⟩
  | free | ignored => exact hk

end Bindings.Within

namespace Loops

variable {M : Type} [AddCommMonoid M] (loops : Loops)

/-- What taking a step adds: a tuple is taken where it looks one up. -/
def toll (taken : M) (step : Step) : M := if step.positiveGoal?.isSome then taken else 0

/-- **What the ways through the steps come to**: the weights of the matches that they end in, and of
the tuples taken on the way. -/
def weigh (found : Bindings → M) (taken : M) : List Step → Bindings → M
  | [], b => found b
  | step :: rest, b =>
    match loops.next b step with
    | .ok bs => (bs.map fun c => toll taken step + weigh found taken rest c).sum
    | .error _ => 0

/-- **No way through the steps fails**, and each ends well. -/
def Fine (good : Bindings → Prop) : List Step → Bindings → Prop
  | [], b => good b
  | step :: rest, b => ∃ bs, loops.next b step = .ok bs ∧ ∀ c ∈ bs, Fine good rest c

variable {loops} {found : Bindings → M} {taken : M} {good : Bindings → Prop}
  {b b' : Bindings} {bs : List Bindings} {step : Step} {steps : List Step}

theorem weigh_cons {rest : List Step} (ok : loops.next b step = .ok bs) :
    loops.weigh found taken (step :: rest) b =
      (bs.map fun c => toll taken step + loops.weigh found taken rest c).sum := by
  rw [weigh, ok]

/-- **The ways that the loops list** are all there is to weigh. -/
theorem weigh_of_ways {ends : List Bindings} (ok : loops.ways steps b = .ok ends) :
    loops.weigh found taken steps b = (ends.map found).sum + loops.bound steps b • taken := by
  induction steps generalizing b ends with
  | nil =>
    cases ok
    simp [weigh, bound]
  | cons step rest ih =>
    have tolls : toll taken step = (if step.positiveGoal?.isSome then 1 else 0) • taken := by
      rw [toll]
      split <;> simp
    have parts {bs : List Bindings} {ends : List (List Bindings)}
        (h : List.Forall₂ (fun c es => loops.ways rest c = .ok es) bs ends) :
        (bs.map fun c => toll taken step + loops.weigh found taken rest c).sum =
          (ends.flatten.map found).sum + (bs.map fun c =>
            (if step.positiveGoal?.isSome then 1 else 0) + loops.bound rest c).sum • taken := by
      induction h with
      | nil => simp
      | cons hc _ ih' =>
        rw [List.map_cons, List.sum_cons, ih', tolls, ih hc]
        simp only [List.map_cons, List.sum_cons, List.flatten_cons, List.map_append,
          List.sum_append, add_smul]
        abel
    obtain ⟨bs, hbs, ok⟩ := Outcome.except_bind_ok_iff.1 ok
    obtain ⟨ends, hends, ok⟩ := Outcome.except_bind_ok_iff.1 ok
    cases ok
    rw [weigh_cons hbs, bound, hbs]
    exact parts (Outcome.mapM_ok_iff.1 hends)

/-- **Loops that come to an end** do not fail. -/
theorem fine_of_ways {ends : List Bindings} (ok : loops.ways steps b = .ok ends)
    (hgood : ∀ c ∈ ends, good c) : loops.Fine good steps b := by
  induction steps generalizing b ends with
  | nil =>
    cases ok
    exact hgood b (List.mem_singleton.2 rfl)
  | cons step rest ih =>
    obtain ⟨bs, hbs, ok⟩ := Outcome.except_bind_ok_iff.1 ok
    obtain ⟨ends, hends, ok⟩ := Outcome.except_bind_ok_iff.1 ok
    cases ok
    rw [Outcome.mapM_ok_iff] at hends
    refine ⟨bs, hbs, fun c hc => ?_⟩
    obtain ⟨es, hes, ok⟩ := Outcome.exists_of_forall₂ hends hc
    exact ih ok fun d hd => hgood d (List.mem_flatten.2 ⟨es, hes, hd⟩)

/-- A value is taken apart in the same way. -/
theorem destruct_of_within {t : Term} {f : String} {ys : List Var} (h : b.Within b')
    (ok : loops.next b (.destruct t f ys) = .ok bs) :
    ∃ bs', loops.next b' (.destruct t f ys) = .ok bs' ∧ List.Forall₂ Bindings.Within bs bs' := by
  obtain ⟨c, hc, ok⟩ := Outcome.except_bind_ok_iff.1 ok
  cases ok
  obtain ⟨x, hx, hc⟩ := Outcome.except_bind_ok_iff.1 hc
  have next_eq : loops.next b' (.destruct t f ys) =
      Option.toList <$> Step.performDestruct loops.functions t f ys b' := rfl
  rw [next_eq, Step.performDestruct, h.evaluate hx]
  cases x with
  | ctor g xs =>
    dsimp only at hc
    by_cases hg : g = f ∧ xs.length = ys.length
    · rw [if_pos hg] at hc
      cases hc
      exact ⟨[b'.putAll (ys.zip xs)], by simp [bind, Except.bind, hg]; rfl,
        .cons (h.putAll (ys.zip xs)) .nil⟩
    · rw [if_neg hg] at hc
      cases hc
      exact ⟨[], by simp [bind, Except.bind, hg]; rfl, .nil⟩
  | var | lit | call =>
    cases hc
    exact ⟨[], rfl, .nil⟩

/-- The key of a goal is the same, and so is what it finds. -/
theorem lookup_of_within {g : Goal} (h : b.Within b') (ok : loops.next b (.lookup g) = .ok bs) :
    ∃ bs', loops.next b' (.lookup g) = .ok bs' ∧ List.Forall₂ Bindings.Within bs bs' := by
  obtain ⟨key, hkey, ok⟩ := Outcome.except_bind_ok_iff.1 ok
  have hkey' := h.key hkey
  by_cases hn : g.negated = true
  · rw [if_pos hn] at ok
    cases ok
    refine ⟨if (loops.store.extent g.relation).tuples.any key.agrees then [] else [b'], ?_, ?_⟩
    · rw [next, hkey']
      exact if_pos hn
    · split
      · exact .nil
      · exact .cons h .nil
  · rw [if_neg hn] at ok
    cases ok
    refine ⟨((loops.range g).filter key.agrees).map fun tuple => g.bind tuple b', ?_, ?_⟩
    · rw [next, hkey']
      exact if_neg hn
    · rw [List.forall₂_map_left_iff, List.forall₂_map_right_iff, List.forall₂_same]
      intro t _
      rw [Goal.bind_eq_putAll, Goal.bind_eq_putAll]
      exact h.putAll _

/-- **Where a step leads, it leads from bindings that have more**, to bindings that have more. -/
theorem next_of_within (h : b.Within b') (ok : loops.next b step = .ok bs) :
    ∃ bs', loops.next b' step = .ok bs' ∧ List.Forall₂ Bindings.Within bs bs' := by
  cases step with
  | assign v t =>
    obtain ⟨c, hc, ok⟩ := Outcome.except_bind_ok_iff.1 ok
    cases ok
    obtain ⟨x, hx, hc⟩ := Outcome.except_bind_ok_iff.1 hc
    cases hc
    refine ⟨[b'.put v x], ?_, .cons (h.putAll [(v, x)]) .nil⟩
    rw [next, Step.performAssign, h.evaluate hx]
    rfl
  | check l r negated =>
    obtain ⟨go, hgo, ok⟩ := Outcome.except_bind_ok_iff.1 ok
    cases ok
    obtain ⟨x, hx, hgo⟩ := Outcome.except_bind_ok_iff.1 hgo
    obtain ⟨y, hy, hgo⟩ := Outcome.except_bind_ok_iff.1 hgo
    cases hgo
    refine ⟨if decide (x = y) != negated then [b'] else [], ?_, ?_⟩
    · rw [next, Step.performCheck, h.evaluate hx, h.evaluate hy]
      rfl
    · split
      · exact .cons h .nil
      · exact .nil
  | destruct t f ys => exact destruct_of_within h ok
  | lookup g => exact lookup_of_within h ok

/-! ## Complete matches -/

/-- **Complete matches** are the ends of the ways, each with the values of the head. -/
theorem exists_ends {c : Clause} {ms : List (Bindings × Tuple)}
    (ok : loops.complete c = .ok ms) : ∃ ends, loops.ways c.body ∅ = .ok ends ∧
      List.Forall₂ (fun b m => b = m.1 ∧ Tuple.evaluate b loops.functions c.head.args = .ok m.2)
        ends ms := by
  obtain ⟨ends, hends, ok⟩ := Outcome.except_bind_ok_iff.1 ok
  refine ⟨ends, hends, (Outcome.mapM_ok_iff.1 ok).imp fun b m h => ?_⟩
  obtain ⟨tuple, value, h⟩ := Outcome.except_bind_ok_iff.1 h
  cases h
  exact ⟨rfl, value⟩

/-- **Loops that do not break**: if whatever is due has a property that not every tuple has, all
matches are found, and their facts have it. -/
theorem exists_complete {c : Clause} {P : Tuple → Prop} {fresh : Tuple}
    (due : ∀ tuple, c.head.Due loops.scene c.body ∅ tuple → P tuple) (lacks : ¬P fresh) :
    ∃ ms, loops.complete c = .ok ms ∧ ∀ m ∈ ms, P m.2 := by
  obtain ⟨ends, ways⟩ : ∃ ends, loops.ways c.body ∅ = .ok ends :=
    exists_ways fun breaks => lacks (due fresh (.inr breaks))
  have value (b : Bindings) (hb : b ∈ ends) : ∃ tuple,
      Tuple.evaluate b loops.functions c.head.args = .ok tuple ∧ P tuple := by
    have path := (mem_ways_iff ways).1 hb
    cases hvalue : Tuple.evaluate b loops.functions c.head.args with
    | ok tuple => exact ⟨tuple, rfl, due tuple (.of_path path hvalue)⟩
    | error e =>
      refine (lacks (due fresh (.inl ⟨b, path, fun values h => ?_⟩))).elim
      cases hvalue.symm.trans h
  obtain ⟨ms, found⟩ : ∃ ms : List (Bindings × Tuple), ends.mapM (fun b => do
      return (b, ← Tuple.evaluate b loops.functions c.head.args)) = .ok ms :=
    Outcome.exists_mapM_ok fun b hb => by
      obtain ⟨tuple, hvalue, _⟩ := value b hb
      exact ⟨(b, tuple), Outcome.except_bind_ok_iff.2 ⟨tuple, hvalue, rfl⟩⟩
  refine ⟨ms, Outcome.except_bind_ok_iff.2 ⟨ends, ways, found⟩, fun m hm => ?_⟩
  obtain ⟨b, hb, hm⟩ := Outcome.exists_of_forall₂ (Outcome.mapM_ok_iff.1 found).flip hm
  obtain ⟨tuple, hvalue, hm⟩ := Outcome.except_bind_ok_iff.1 hm
  cases hm
  obtain ⟨tuple', hvalue', held⟩ := value b hb
  exact Except.ok.inj (hvalue'.symm.trans hvalue) ▸ held

end Loops

end Datalog
