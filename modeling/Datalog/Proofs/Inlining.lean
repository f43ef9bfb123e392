import Datalog.Function.Builtin
import Datalog.Proofs.Assoc
import Datalog.Proofs.Value

/-!
# Proofs/Inlining — a term in place, or its value in the bindings

Compilation puts the term in place that a variable stands for; had the variable been assigned, its
value would be in the bindings when the clause runs.  If all these terms have values the two come to
the same, for what has a value and for what raises a fault: in a plain environment
(`Term.valueIn_substitute`), and so for evaluation (`Term.evaluate_substitute`).  A term in place is
evaluated wherever its variable stands and the value is taken over as it is, so it matters that no
fault can come from there.
-/

namespace Datalog

namespace Term

variable {env : Env} {fns : Functions}

/-- **Substituting first makes no difference**, not even to the fault that is raised, if the terms
that come in have values. -/
theorem valueIn_substitute {σ : Bindings} {t : Term}
    (values : ∀ v ∈ t.occurrences, ∀ u, σ.get? v = some u → ∃ x, u.valueIn env fns = .ok x) :
    (t.substitute σ).valueIn env fns = t.valueIn (.through σ fns env) fns := by
  have all {args : List Term}
      (ih : ∀ a ∈ args,
        (∀ v ∈ a.occurrences, ∀ u, σ.get? v = some u → ∃ x, u.valueIn env fns = .ok x) →
          (a.substitute σ).valueIn env fns = a.valueIn (.through σ fns env) fns)
      (values : ∀ v ∈ occurrencesOf args, ∀ u, σ.get? v = some u →
        ∃ x, u.valueIn env fns = .ok x) :
      valuesIn env fns (substituteAll σ args) = valuesIn (.through σ fns env) fns args := by
    rw [substituteAll_eq_map, valuesIn_eq_mapM, valuesIn_eq_mapM, List.mapM_map]
    exact Outcome.mapM_congr fun a ha =>
      ih a ha fun v hv => values v (mem_occurrencesOf.2 ⟨a, ha, hv⟩)
  induction t with
  | var v =>
    rw [substitute, valueIn, Env.through]
    cases inlined : σ.get? v with
    | none => rw [Option.getD_none, valueIn]
    | some u =>
      obtain ⟨x, hx⟩ := values v (List.mem_singleton.2 rfl) u inlined
      dsimp only
      rw [Option.getD_some, hx, value?_eq_some_iff.2 hx]
  | lit v => rfl
  | ctor f args ih => rw [substitute, valueIn, valueIn, all ih values]
  | call f args ih => rw [substitute, valueIn, valueIn, all ih values]

end Term

namespace Bindings

variable {c s s' : Bindings} {fns : Functions}

/-- **The bindings with those of `c` evaluated into them**: each variable of `c` is bound to the
value that its term has under the old bindings. -/
def updated (s : Bindings) (fns : Functions) (c : Bindings) : Except Abort Bindings := do
  return s.putAll (← c.entries.mapM fun e => return (e.1, ← e.2.evaluate s fns))

/-- What is put, entry by entry: the same variable, and the value of its term. -/
theorem updated_ok (ok : s.updated fns c = .ok s') : ∃ pairs : List (Var × Term),
    List.Forall₂ (fun e p => p.1 = e.1 ∧ e.2.evaluate s fns = .ok p.2) c.entries pairs ∧
      s' = s.putAll pairs := by
  obtain ⟨pairs, evaluated, put⟩ := Outcome.except_bind_ok_iff.1 ok
  refine ⟨pairs, (Outcome.mapM_ok_iff.1 evaluated).imp fun e p h => ?_, (Except.ok.inj put).symm⟩
  obtain ⟨x, value, pair⟩ := Outcome.except_bind_ok_iff.1 h
  cases pair
  exact ⟨rfl, value⟩

/-- **Reading the updated bindings** is reading through `c`. -/
theorem get?_updated (ok : s.updated fns c = .ok s') (v : Var) :
    s'.get? v = Env.through c fns s.get? v := by
  obtain ⟨pairs, evaluated, rfl⟩ := updated_ok ok
  have keys : pairs.map Prod.fst = c.entries.map Prod.fst :=
    List.forall₂_eq_eq_eq ▸ List.forall₂_map_right_iff.2
      (List.forall₂_map_left_iff.2 (evaluated.flip.imp fun _ _ h => h.1))
  rw [Env.through]
  cases held : c.get? v with
  | some u =>
    obtain ⟨p, hp, rfl, value⟩ :=
      Outcome.exists_of_forall₂ evaluated (Assoc.get?_eq_some_iff.1 held)
    rw [Assoc.get?_putAll_of_mem (keys ▸ c.nodup) hp]
    exact (Term.evaluate_eq_ok_iff.1 value).symm
  | none =>
    refine Assoc.get?_putAll_of_notMem fun hv => ?_
    obtain ⟨e, he, rfl⟩ := List.mem_map.1 (keys ▸ hv)
    cases held.symm.trans (Assoc.get?_eq_some_iff.2 he)

theorem exists_updated (values : ∀ v u, c.get? v = some u → ∃ x, u.evaluate s fns = .ok x) :
    ∃ s', s.updated fns c = .ok s' := by
  have evaluable : ∀ e ∈ c.entries, ∃ p,
      (return (e.1, ← e.2.evaluate s fns) : Except Abort (Var × Term)) = .ok p := by
    intro e he
    obtain ⟨x, value⟩ := values e.1 e.2 (Assoc.get?_eq_some_iff.2 he)
    exact ⟨(e.1, x), by rw [value]; rfl⟩
  obtain ⟨pairs, evaluated⟩ := Outcome.exists_mapM_ok evaluable
  exact ⟨s.putAll pairs, Outcome.except_bind_ok_iff.2 ⟨pairs, evaluated, rfl⟩⟩

end Bindings

/-- **A term in place, or its value in the bindings.**  If every term of `c` has a value under `s`,
then `s` can be updated with these values, and this is all that changes; and whatever term `c` is
put into, evaluating the outcome under `s` is evaluating the term itself under the updated bindings,
with the same value or the same fault. -/
theorem Term.evaluate_substitute {c s : Bindings} {fns : Functions}
    (values : ∀ v u, c.get? v = some u → ∃ x, u.evaluate s fns = .ok x) :
    ∃ s', s.updated fns c = .ok s' ∧
      (∀ v u, c.get? v = some u → ∃ x, u.evaluate s fns = .ok x ∧ s'.get? v = some x) ∧
      (∀ v, c.get? v = none → s'.get? v = s.get? v) ∧
      ∀ t : Term, (t.substitute c).evaluate s fns = t.evaluate s' fns := by
  obtain ⟨s', ok⟩ := Bindings.exists_updated values
  have reads := Bindings.get?_updated ok
  refine ⟨s', ok, fun v u held => ?_, fun v free => ?_, fun t => ?_⟩
  · obtain ⟨x, value⟩ := values v u held
    refine ⟨x, value, ?_⟩
    rw [reads, Env.through, held]
    exact evaluate_eq_ok_iff.1 value
  · rw [reads, Env.through, free]
  · have known : ∀ v ∈ t.occurrences, ∀ u, c.get? v = some u →
        ∃ x, u.valueIn s.get? fns = .ok x := by
      intro v _ u held
      rw [← evaluate_eq_valueIn]
      exact values v u held
    rw [evaluate_eq_valueIn, evaluate_eq_valueIn, valueIn_substitute known]
    exact valueIn_congr fun v _ => (reads v).symm

/-! ## Example -/

namespace Placed

/-- The variable that is inlined. -/
def x : Var := ⟨"x", 0⟩

/-- The variable that it is inlined with. -/
def y : Var := ⟨"y", 0⟩

/-- `x` stands for `add(y, 1)`. -/
def inlined : Bindings := .ofList [(x, .call "add" [.var y, .int 1])]

/-- The bindings when the clause runs; what they have for `x` is of another branch. -/
def bindings : Bindings := .ofList [(x, .int 9), (y, .int 2)]

/-- `pair(x, mul(x, y))`. -/
def pair : Term := .ctor "pair" [.var x, .call "mul" [.var x, .var y]]

/-- `triple(x, div(x, 0), z)`, where two faults are possible. -/
def triple : Term := .ctor "triple" [.var x, .call "div" [.var x, .int 0], .var ⟨"z", 0⟩]

theorem values : ∀ v u, inlined.get? v = some u → ∃ t, u.evaluate bindings .builtin = .ok t := by
  intro v u h
  obtain ⟨_, rfl⟩ := Prod.mk.inj (List.mem_singleton.1 (Assoc.mem_of_get?_ofList h))
  exact ⟨.int 3, by cbv⟩

/-- `x` is 3, so the pair is `pair(3, 6)`; the fault of the triple is its division. -/
theorem evaluated_in_place : (∀ v u, inlined.get? v = some u →
      ∃ t, u.evaluate bindings .builtin = .ok t) ∧
    ∃ s', bindings.updated .builtin inlined = .ok s' ∧ s'.get? x = some (.int 3) ∧
      s'.get? y = some (.int 2) ∧
      pair.evaluate s' .builtin = .ok (.ctor "pair" [.int 3, .int 6]) ∧
      triple.evaluate s' .builtin = refuse "div" "division by zero" := by
  obtain ⟨s', ok, inside, outside, same⟩ := Term.evaluate_substitute values
  obtain ⟨t, value, bound⟩ := inside x (.call "add" [.var y, .int 1]) (by cbv)
  have three : (Term.call "add" [.var y, .int 1]).evaluate bindings .builtin = .ok (.int 3) := by
    cbv
  obtain rfl := Except.ok.inj (value.symm.trans three)
  refine ⟨values, s', ok, bound, (outside y (by cbv)).trans (by cbv), ?_, ?_⟩
  · rw [← same]
    cbv
  · rw [← same]
    cbv

end Placed

end Datalog
