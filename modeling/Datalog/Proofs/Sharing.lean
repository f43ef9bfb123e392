import Datalog.Proofs.Reached

/-!
# Proofs/Sharing — what evaluation may leave alone

`reduce?` answers `none` where the caller can keep the term it has.  That is exactly so for values
(`reduce?_eq_none_iff`): a variable and a call always give a term of their own, and a constructor
is copied as soon as one of its arguments is.  A value is its own value, and over values evaluation
gives values; so evaluating a second time changes nothing.
-/

namespace Datalog

namespace Term

variable {env : Env} {b : Bindings} {fns : Functions}

/-! ## Values are left alone -/

/-- Once the arguments are copied, they stay copied. -/
theorem copyFrom?_some_ne_none (ts passed done : List Term) :
    copyFrom? b fns passed (some done) ts ≠ .ok none := by
  induction ts generalizing passed done with
  | nil => intro h; cases h
  | cons t ts ih =>
    rw [copyFrom?]
    cases t.reduce? b fns with
    | error e => intro h; cases h
    | ok t' => cases t' with
      | none => exact ih _ (done ++ [t])
      | some t' => exact ih _ (done ++ [t'])

/-- Arguments are kept if every single one is. -/
theorem copyFrom?_eq_none_iff {ts : List Term} (passed : List Term) :
    copyFrom? b fns passed none ts = .ok none ↔ ∀ t ∈ ts, t.reduce? b fns = .ok none := by
  induction ts generalizing passed with
  | nil => simp [copyFrom?]
  | cons t ts ih =>
    have copied (t' : Term) : copyFrom? b fns (passed ++ [t]) (some (passed ++ [t'])) ts ≠ .ok none :=
      copyFrom?_some_ne_none ts _ _
    rw [copyFrom?, List.forall_mem_cons, ← ih (passed ++ [t])]
    cases t.reduce? b fns with
    | error e => exact iff_of_false (fun h => by cases h) (fun h => by cases h.1)
    | ok t' => cases t' with
      | none => exact (and_iff_right rfl).symm
      | some t' => exact iff_of_false (copied t') (fun h => by cases h.1)

/-- **Only values are left alone**, and all of them are. -/
theorem reduce?_eq_none_iff {t : Term} : t.reduce? b fns = .ok none ↔ t.isValue = true := by
  induction t with
  | var v =>
    have unbound : (var v).isValue = false := rfl
    rw [reduce?, unbound]
    cases b.get? v <;> simp
  | lit v => exact ⟨fun _ => rfl, fun _ => rfl⟩
  | ctor f args ih =>
    have kept : (ctor f args).reduce? b fns = .ok none ↔ copyFrom? b fns [] none args = .ok none := by
      rw [reduce?]
      cases copyFrom? b fns [] none args with
      | error e => exact iff_of_false (fun h => by cases h) (fun h => by cases h)
      | ok args' => cases args' with
        | none => exact iff_of_true rfl rfl
        | some args' => exact iff_of_false (fun h => by cases h) (fun h => by cases h)
    rw [kept, copyFrom?_eq_none_iff, isValue_ctor_iff]
    exact forall₂_congr ih
  | call f args =>
    have pending : (call f args).isValue = false := Bool.and_false _
    rw [reduce?, pending]
    refine iff_of_false (fun h => ?_) Bool.false_ne_true
    obtain ⟨xs, _, h⟩ := Outcome.except_bind_ok_iff.1 h
    obtain ⟨y, _, h⟩ := Outcome.except_bind_ok_iff.1 h
    cases h

/-! ## Values of values -/

/-- **A value is its own value.** -/
theorem valueIn_of_isValue {t : Term} (h : t.isValue = true) : t.valueIn env fns = .ok t := by
  induction t with
  | var v => cases h
  | lit v => rfl
  | ctor f args ih =>
    have values := isValue_ctor_iff.1 h
    have all : valuesIn env fns args = .ok args :=
      valuesIn_eq_ok_iff.2 <| List.forall₂_same.2 fun a ha =>
        value?_eq_some_iff.2 (ih a ha (values a ha))
    rw [valueIn, all]
    rfl
  | call f args => cases (Bool.and_false _).symm.trans h

/-- **Evaluation is faithful to the plain value.**  It gives the same term or raises the same
fault; what it leaves alone is its own value; and over bindings to values, with functions that
return values, it gives a value, which no further evaluation changes. -/
theorem evaluate_faithful (b : Bindings) (fns : Functions) (t : Term) :
    t.evaluate b fns = t.valueIn b.get? fns ∧
      (t.reduce? b fns = .ok none → t.valueIn b.get? fns = .ok t) ∧
      ((∀ v x, b.get? v = some x → x.isValue = true) → fns.Respect (fun x => x.isValue = true) →
        ∀ x, t.evaluate b fns = .ok x → x.isValue = true ∧
          ∀ (b' : Bindings) (fns' : Functions), x.evaluate b' fns' = .ok x) := by
  refine ⟨evaluate_eq_valueIn b t, fun kept => valueIn_of_isValue (reduce?_eq_none_iff.1 kept),
    fun values respect x hx => ?_⟩
  have value : x.isValue = true :=
    inherited_isValue.value respect values (evaluate_eq_ok_iff.1 hx)
  exact ⟨value, fun b' fns' => (evaluate_eq_valueIn b' x).trans (valueIn_of_isValue value)⟩

end Term

/-! ## Example -/

namespace Copied

/-- `x` bound to 2. -/
def bindings : Bindings := .ofList [(⟨"x", 0⟩, .int 2)]

/-- `f(nil, g(1, x), add(x, 3), nil)`: the first argument is shared, the copy starts at the second,
and there again midway. -/
def term : Term :=
  .ctor "f" [.ctor "nil" [], .ctor "g" [.int 1, .var ⟨"x", 0⟩],
    .call "add" [.var ⟨"x", 0⟩, .int 3], .ctor "nil" []]

/-- Its value, `f(nil, g(1, 2), 5, nil)`. -/
def value : Term := .ctor "f" [.ctor "nil" [], .ctor "g" [.int 1, .int 2], .int 5, .ctor "nil" []]

theorem values : ∀ v x, bindings.get? v = some x → x.isValue = true := by
  intro v x h
  obtain ⟨_, rfl⟩ := Prod.mk.inj (List.mem_singleton.1 (Assoc.mem_of_get?_ofList h))
  rfl

/-- The copy has every argument in its place, and stays as it is under other bindings. -/
theorem faithful_example : (term.valueIn bindings.get? .builtin = .ok value) ∧
    value.evaluate ∅ ∅ = .ok value := by
  obtain ⟨plain, _, again⟩ := Term.evaluate_faithful bindings .builtin term
  have copy : term.evaluate bindings .builtin = .ok value := by cbv
  exact ⟨plain ▸ copy, (again values (Functions.respect_builtin fun _ => rfl) value copy).2 ∅ ∅⟩

end Copied

end Datalog
