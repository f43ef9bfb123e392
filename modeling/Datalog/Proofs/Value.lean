import Datalog.Meaning.Value
import Datalog.Proofs.Outcome

/-!
# Proofs/Value — values of terms

`value?` forgets which fault kept a term from having a value.  Three facts carry the rest: a value
depends on the variables that occur (`valueIn_congr`), substituting first and reading values later
is the same as reading through the substitution (`value?_substitute`), and `evaluate` computes the
plain value (`evaluate_eq_valueIn`).
-/

namespace Datalog

/-- **A call fails** before the function is run, with a fault of its own, or in the function. -/
theorem Functions.call_error {fns : Functions} {name : String} {args : Tuple} {e : Abort}
    (he : fns.call name args = .error e) : e = .fault (.unknownFunction name) ∨
      ∃ fn, fns.get? name = some fn ∧
        ((fn.arity ≠ args.length ∧ e = .fault (.functionArity name fn.arity args.length)) ∨
          (fn.arity = args.length ∧ fn.run args = .error e)) := by
  rw [Functions.call] at he
  cases hfn : fns.get? name with
  | none =>
    rw [hfn] at he
    exact .inl (Except.error.inj he).symm
  | some fn =>
    rw [hfn] at he
    dsimp only at he
    split at he
    · next arity => exact .inr ⟨fn, rfl, .inr ⟨arity, he⟩⟩
    · next arity => exact .inr ⟨fn, rfl, .inl ⟨arity, (Except.error.inj he).symm⟩⟩

namespace Term

variable {env env' : Env} {fns : Functions}

/-- **The value of a term**, if it has one. -/
def value? (env : Env) (fns : Functions) (t : Term) : Option Term := (t.valueIn env fns).toOption

/-- The values of several terms, if all have one. -/
def values? (env : Env) (fns : Functions) (ts : List Term) : Option (List Term) :=
  ts.mapM (value? env fns)

theorem value?_eq_some_iff {t x : Term} :
    t.value? env fns = some x ↔ t.valueIn env fns = .ok x :=
  Outcome.toOption_eq_some_iff

theorem values?_eq_some_iff {ts xs : List Term} :
    values? env fns ts = some xs ↔ List.Forall₂ (fun t x => t.value? env fns = some x) ts xs :=
  Outcome.mapM_eq_some_iff

theorem valuesIn_eq_ok_iff {ts xs : List Term} : valuesIn env fns ts = .ok xs ↔
    List.Forall₂ (fun t x => t.value? env fns = some x) ts xs := by
  rw [valuesIn_eq_mapM, Outcome.mapM_ok_iff]
  simp only [value?_eq_some_iff]

theorem toOption_valuesIn : ∀ ts : List Term,
    (valuesIn env fns ts).toOption = values? env fns ts
  | [] => rfl
  | t :: ts => by
    rw [values?, List.mapM_cons, valuesIn]
    have ih := toOption_valuesIn ts
    rw [values?] at ih
    rw [← ih, value?]
    cases t.valueIn env fns <;> cases valuesIn env fns ts <;> rfl

/-! ## The value of each kind of term -/

@[simp] theorem value?_var (v : Var) : (var v).value? env fns = env v := by
  rw [value?, valueIn]
  cases env v <;> rfl

@[simp] theorem value?_lit (v : Value) : (lit v).value? env fns = some (lit v) := rfl

theorem value?_ctor (f : String) (args : List Term) :
    (ctor f args).value? env fns = (values? env fns args).map (ctor f) := by
  rw [value?, valueIn, ← toOption_valuesIn]
  cases valuesIn env fns args <;> rfl

theorem value?_call (f : String) (args : List Term) :
    (call f args).value? env fns =
      (values? env fns args).bind fun xs => (fns.call f xs).toOption := by
  rw [value?, valueIn, ← toOption_valuesIn]
  cases valuesIn env fns args <;> rfl

/-- A constructor has a value exactly if each argument has one. -/
theorem value?_ctor_eq_some_iff {f : String} {args : List Term} {x : Term} :
    (ctor f args).value? env fns = some x ↔
      ∃ xs, x = ctor f xs ∧ List.Forall₂ (fun t x => t.value? env fns = some x) args xs := by
  rw [value?_ctor, Option.map_eq_some_iff]
  simp only [values?_eq_some_iff]
  exact ⟨fun ⟨xs, h, e⟩ => ⟨xs, e.symm, h⟩, fun ⟨xs, e, h⟩ => ⟨xs, h, e.symm⟩⟩

/-! ## What a value depends on -/

theorem mem_occurrencesOf {v : Var} {ts : List Term} :
    v ∈ occurrencesOf ts ↔ ∃ t ∈ ts, v ∈ t.occurrences := by
  rw [occurrencesOf_eq_flatMap, List.mem_flatMap]

/-- **A value depends on the variables that occur in the term**, and so does the fault that stands
in its place. -/
theorem valueIn_congr {t : Term} (h : ∀ v ∈ t.occurrences, env v = env' v) :
    t.valueIn env fns = t.valueIn env' fns := by
  have all {args : List Term} (ih : ∀ a ∈ args, (∀ v ∈ a.occurrences, env v = env' v) →
      a.valueIn env fns = a.valueIn env' fns) (h : ∀ v ∈ occurrencesOf args, env v = env' v) :
      valuesIn env fns args = valuesIn env' fns args := by
    rw [valuesIn_eq_mapM, valuesIn_eq_mapM]
    refine Outcome.mapM_congr fun a ha => ih a ha fun v hv => h v ?_
    exact mem_occurrencesOf.2 ⟨a, ha, hv⟩
  induction t with
  | var v => rw [valueIn, valueIn, h v (List.mem_singleton.2 rfl)]
  | lit v => rfl
  | ctor f args ih => rw [valueIn, valueIn, all ih h]
  | call f args ih => rw [valueIn, valueIn, all ih h]

mutual

/-- **The calls of a term**: the names, each with its number of arguments. -/
def calls : Term → List (String × Nat)
  | .var _ | .lit _ => []
  | .ctor _ args => callsOf args
  | .call f args => (f, args.length) :: callsOf args

/-- The calls of the terms of an argument list. -/
def callsOf : List Term → List (String × Nat)
  | [] => []
  | t :: ts => t.calls ++ callsOf ts

end

theorem mem_callsOf {e : String × Nat} {ts : List Term} : e ∈ callsOf ts ↔ ∃ t ∈ ts, e ∈ t.calls := by
  induction ts with
  | nil => simp [callsOf]
  | cons t ts ih => simp [callsOf, ih]

/-- **A term has no value** only for want of a binding, or because one of its calls has none. -/
theorem valueIn_error {t : Term} {e : Abort} (he : t.valueIn env fns = .error e) :
    (∃ v ∈ t.occurrences, env v = none ∧ e = .fault (.unboundVariable v.text)) ∨
      ∃ f xs, (f, xs.length) ∈ t.calls ∧ fns.call f xs = .error e := by
  have all {args : List Term} (ih : ∀ a ∈ args, a.valueIn env fns = .error e →
      (∃ v ∈ a.occurrences, env v = none ∧ e = .fault (.unboundVariable v.text)) ∨
        ∃ f xs, (f, xs.length) ∈ a.calls ∧ fns.call f xs = .error e)
      (he : valuesIn env fns args = .error e) :
      (∃ v ∈ occurrencesOf args, env v = none ∧ e = .fault (.unboundVariable v.text)) ∨
        ∃ f xs, (f, xs.length) ∈ callsOf args ∧ fns.call f xs = .error e := by
    rw [valuesIn_eq_mapM] at he
    obtain ⟨a, ha, he⟩ := Outcome.exists_of_mapM_error he
    rcases ih a ha he with ⟨v, hv, unbound⟩ | ⟨f, xs, hcall, he⟩
    · exact .inl ⟨v, mem_occurrencesOf.2 ⟨a, ha, hv⟩, unbound⟩
    · exact .inr ⟨f, xs, mem_callsOf.2 ⟨a, ha, hcall⟩, he⟩
  induction t with
  | var v =>
    rw [valueIn] at he
    cases hv : env v with
    | some x => simp [hv] at he
    | none =>
      rw [hv] at he
      exact .inl ⟨v, List.mem_singleton.2 rfl, hv, (Except.error.inj he).symm⟩
  | lit v => cases he
  | ctor f args ih =>
    rw [valueIn] at he
    rcases Outcome.except_bind_error_iff.1 he with he | ⟨xs, _, he⟩
    · exact all ih he
    · cases he
  | call f args ih =>
    rw [valueIn] at he
    rcases Outcome.except_bind_error_iff.1 he with he | ⟨xs, values, he⟩
    · refine (all ih he).imp_right ?_
      rintro ⟨g, xs, hcall, he⟩
      exact ⟨g, xs, List.mem_cons_of_mem _ hcall, he⟩
    · have length := (valuesIn_eq_ok_iff.1 values).length_eq
      exact .inr ⟨f, xs, length ▸ List.mem_cons_self .., he⟩

theorem valuesIn_congr {ts : List Term} (h : ∀ v ∈ occurrencesOf ts, env v = env' v) :
    valuesIn env fns ts = valuesIn env' fns ts := by
  rw [valuesIn_eq_mapM, valuesIn_eq_mapM]
  exact Outcome.mapM_congr fun a ha =>
    valueIn_congr fun v hv => h v (mem_occurrencesOf.2 ⟨a, ha, hv⟩)

theorem value?_congr {t : Term} (h : ∀ v ∈ t.occurrences, env v = env' v) :
    t.value? env fns = t.value? env' fns := by
  rw [value?, value?, valueIn_congr h]

theorem values?_congr {ts : List Term} (h : ∀ v ∈ occurrencesOf ts, env v = env' v) :
    values? env fns ts = values? env' fns ts :=
  Outcome.mapM_congr fun a ha => value?_congr fun v hv => h v (mem_occurrencesOf.2 ⟨a, ha, hv⟩)

/-! ## Substitution -/

end Term

/-- **The environment read through bindings**: a bound variable has the value of its term. -/
def Env.through (σ : Bindings) (fns : Functions) (env : Env) : Env := fun v =>
  match σ.get? v with
  | some t => t.value? env fns
  | none => env v

namespace Term

variable {env : Env} {fns : Functions}

/-- **Substituting first makes no difference.** -/
theorem value?_substitute (σ : Bindings) (t : Term) :
    (t.substitute σ).value? env fns = t.value? (.through σ fns env) fns := by
  have all {args : List Term} (ih : ∀ a ∈ args,
      (a.substitute σ).value? env fns = a.value? (.through σ fns env) fns) :
      values? env fns (substituteAll σ args) = values? (.through σ fns env) fns args := by
    rw [substituteAll_eq_map, values?, List.mapM_map]
    exact Outcome.mapM_congr ih
  induction t with
  | var v =>
    rw [value?_var, substitute, Env.through]
    cases σ.get? v <;> simp
  | lit v => rfl
  | ctor f args ih => rw [substitute, value?_ctor, value?_ctor, all ih]
  | call f args ih => rw [substitute, value?_call, value?_call, all ih]

/-- The variables of a term after substitution. -/
theorem mem_occurrences_substitute {σ : Bindings} {t : Term} {w : Var} :
    w ∈ (t.substitute σ).occurrences ↔
      ∃ v ∈ t.occurrences, w ∈ ((σ.get? v).getD (var v)).occurrences := by
  have all {args : List Term} (ih : ∀ a ∈ args, w ∈ (a.substitute σ).occurrences ↔
      ∃ v ∈ a.occurrences, w ∈ ((σ.get? v).getD (var v)).occurrences) :
      w ∈ occurrencesOf (substituteAll σ args) ↔
        ∃ v ∈ occurrencesOf args, w ∈ ((σ.get? v).getD (var v)).occurrences := by
    simp only [substituteAll_eq_map, mem_occurrencesOf, List.mem_map]
    constructor
    · rintro ⟨_, ⟨a, ha, rfl⟩, hw⟩
      obtain ⟨v, hv, hw⟩ := (ih a ha).1 hw
      exact ⟨v, ⟨a, ha, hv⟩, hw⟩
    · rintro ⟨v, ⟨a, ha, hv⟩, hw⟩
      exact ⟨_, ⟨a, ha, rfl⟩, (ih a ha).2 ⟨v, hv, hw⟩⟩
  induction t with
  | var v => simp [substitute, occurrences]
  | lit v => simp [substitute, occurrences]
  | ctor f args ih => exact all ih
  | call f args ih => exact all ih

/-! ## Evaluation -/

/-- **The copy and the plain list agree** all along: what the loop has, copied or still shared,
are the arguments passed so far, the later ones to be replaced. -/
theorem copyFrom?_eq_valuesIn {b : Bindings} : ∀ {ts : List Term} (passed : List Term)
    (copied : Option (List Term)), (∀ t ∈ ts, t.evaluate b fns = t.valueIn b.get? fns) →
      (do return (← copyFrom? b fns passed copied ts).getD (passed ++ ts)) =
        (do return copied.getD passed ++ (← valuesIn b.get? fns ts))
  | [], passed, copied, _ => by
    rw [copyFrom?, valuesIn, List.append_nil]
    exact congrArg Except.ok (List.append_nil _).symm
  | t :: ts, passed, copied, h => by
    have ih (copied) := copyFrom?_eq_valuesIn (passed ++ [t]) copied
      fun u hu => h u (List.mem_cons_of_mem _ hu)
    rw [copyFrom?, valuesIn, ← h t (List.mem_cons_self ..), evaluate,
      show passed ++ t :: ts = passed ++ [t] ++ ts by simp]
    cases t.reduce? b fns with
    | error e => rfl
    | ok t' =>
      refine (ih _).trans ?_
      cases valuesIn b.get? fns ts with
      | error e => rfl
      | ok xs =>
        refine congrArg Except.ok ?_
        cases t' <;> cases copied <;> simp

theorem reduceAll_eq_valuesIn {b : Bindings} : ∀ {ts : List Term},
    (∀ t ∈ ts, t.evaluate b fns = t.valueIn b.get? fns) →
      reduceAll b fns ts = valuesIn b.get? fns ts
  | [], _ => rfl
  | t :: ts, h => by
    rw [reduceAll, valuesIn, ← h t (List.mem_cons_self ..), evaluate,
      reduceAll_eq_valuesIn fun u hu => h u (List.mem_cons_of_mem _ hu)]
    cases t.reduce? b fns <;> rfl

/-- **Evaluation computes the plain value**, whatever it shares on the way. -/
theorem evaluate_eq_valueIn (b : Bindings) (t : Term) :
    t.evaluate b fns = t.valueIn b.get? fns := by
  induction t with
  | var v =>
    rw [evaluate, reduce?, valueIn]
    cases b.get? v <;> rfl
  | lit v => rfl
  | ctor f args ih =>
    have loop : (do return (← copyFrom? b fns [] none args).getD args) =
        valuesIn b.get? fns args :=
      (copyFrom?_eq_valuesIn [] none ih).trans (by cases valuesIn b.get? fns args <;> rfl)
    rw [valueIn, ← loop, evaluate, reduce?]
    cases copyFrom? b fns [] none args with
    | error e => rfl
    | ok args' => cases args' <;> rfl
  | call f args ih =>
    rw [evaluate, reduce?, valueIn, reduceAll_eq_valuesIn ih]
    cases valuesIn b.get? fns args with
    | error e => rfl
    | ok xs =>
      change (do return (← (do return some (← fns.call f xs))).getD _) = fns.call f xs
      cases fns.call f xs <;> rfl

theorem evaluate_congr {b c : Bindings} {t : Term} (h : ∀ v ∈ t.occurrences, b.get? v = c.get? v) :
    t.evaluate b fns = t.evaluate c fns := by
  rw [evaluate_eq_valueIn, evaluate_eq_valueIn, valueIn_congr h]

theorem evaluate_eq_ok_iff {b : Bindings} {t x : Term} :
    t.evaluate b fns = .ok x ↔ t.value? b.get? fns = some x := by
  rw [evaluate_eq_valueIn, value?_eq_some_iff]

theorem value?_ne_none {b : Bindings} {t x : Term} (h : t.evaluate b fns = .ok x) :
    t.value? b.get? fns ≠ none := by
  rw [evaluate_eq_ok_iff.1 h]
  exact Option.some_ne_none x

/-- A term that raises a fault has no value. -/
theorem value?_eq_none {b : Bindings} {t : Term} {e : Abort} (h : t.evaluate b fns = .error e) :
    t.value? b.get? fns = none := by
  by_contra hn
  obtain ⟨x, hx⟩ := Option.ne_none_iff_exists'.1 hn
  rw [evaluate_eq_ok_iff.2 hx] at h
  cases h

end Term

theorem Tuple.evaluate_eq_ok_iff {b : Bindings} {fns : Functions} {ts xs : Tuple} :
    Tuple.evaluate b fns ts = .ok xs ↔ Term.values? b.get? fns ts = some xs := by
  rw [Tuple.evaluate, Outcome.mapM_ok_iff, Term.values?_eq_some_iff]
  simp only [Term.evaluate_eq_ok_iff]

/-- A tuple has as many values as terms. -/
theorem Tuple.length_of_evaluate {b : Bindings} {fns : Functions} {ts xs : Tuple}
    (h : Tuple.evaluate b fns ts = .ok xs) : xs.length = ts.length :=
  (Term.values?_eq_some_iff.1 (Tuple.evaluate_eq_ok_iff.1 h)).length_eq.symm

end Datalog
