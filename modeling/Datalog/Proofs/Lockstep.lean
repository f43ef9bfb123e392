import Datalog.Proofs.Outcome

/-!
# Proofs/Lockstep — two computations side by side

Two computations go **in step** if from states that correspond they end alike: both well, with
results that correspond, or both with errors that do, and in states that correspond either way.
Computations put together in the same way from parts that go in step go in step.
-/

namespace Datalog

namespace Outcome

/-! ## Errors -/

section

variable {ε ε' α β γ δ : Type}

/-- **The results correspond**, or the errors do. -/
inductive Pair (E : ε → ε' → Prop) (R : α → β → Prop) : Except ε α → Except ε' β → Prop
  | ok {a b} (h : R a b) : Pair E R (.ok a) (.ok b)
  | error {e e'} (h : E e e') : Pair E R (.error e) (.error e')

namespace Pair

variable {E : ε → ε' → Prop} {R : α → β → Prop} {S : γ → δ → Prop} {x : Except ε α}
  {y : Except ε' β}

theorem bind {f : α → Except ε γ} {g : β → Except ε' δ} (hx : Pair E R x y)
    (hf : ∀ a b, R a b → Pair E S (f a) (g b)) : Pair E S (x >>= f) (y >>= g) := by
  cases hx with
  | ok h => exact hf _ _ h
  | error h => exact .error h

theorem map {f : α → γ} {g : β → δ} (hx : Pair E R x y) (hf : ∀ a b, R a b → S (f a) (g b)) :
    Pair E S (f <$> x) (g <$> y) := by
  cases hx with
  | ok h => exact .ok (hf _ _ h)
  | error h => exact .error h

theorem mapM {f : α → Except ε γ} {g : β → Except ε' δ} {as : List α} {bs : List β}
    (h : List.Forall₂ (fun a b => Pair E S (f a) (g b)) as bs) :
    Pair E (List.Forall₂ S) (as.mapM f) (bs.mapM g) := by
  induction h with
  | nil => exact .ok .nil
  | cons first _ ih =>
    rw [List.mapM_cons, List.mapM_cons]
    exact first.bind fun _ _ h => ih.bind fun _ _ hs => .ok (.cons h hs)

theorem imp {R' : α → β → Prop} (hx : Pair E R x y) (weaker : ∀ a b, R a b → R' a b) :
    Pair E R' x y := by
  cases hx with
  | ok h => exact .ok (weaker _ _ h)
  | error h => exact .error h

/-- The results are what the computations have ended with. -/
theorem known (hx : Pair E R x y) : Pair E (fun a b => R a b ∧ x = .ok a ∧ y = .ok b) x y := by
  cases hx with
  | ok h => exact .ok ⟨h, rfl, rfl⟩
  | error h => exact .error h

/-- The same errors the other way round. -/
theorem symm {y : Except ε β} (hx : Pair Eq R x y) : Pair Eq (flip R) y x := by
  cases hx with
  | ok h => exact .ok h
  | error h => exact .error h.symm

/-- Through a third computation with the same errors. -/
theorem trans {y : Except ε β} {z : Except ε γ} {S : β → γ → Prop} (hx : Pair Eq R x y)
    (hy : Pair Eq S y z) : Pair Eq (Relation.Comp R S) x z := by
  cases hx with
  | ok h =>
    cases hy with
    | ok h' => exact .ok ⟨_, h, h'⟩
  | error h =>
    cases hy with
    | error h' => exact .error (h.trans h')

end Pair

end

/-! ## Nothing or something -/

theorem rel_bind {α β γ δ : Type} {R : α → β → Prop} {S : γ → δ → Prop} {x : Option α}
    {y : Option β} {f : α → Option γ} {g : β → Option δ} (h : Option.Rel R x y)
    (hf : ∀ a b, R a b → Option.Rel S (f a) (g b)) : Option.Rel S (x >>= f) (y >>= g) := by
  cases h with
  | none => exact .none
  | some h => exact hf _ _ h

/-! ## Lists -/

section

variable {α : Type u} {β : Type v} {R : α → β → Prop} {as : List α} {bs : List β}

theorem rel_getElem? (h : List.Forall₂ R as bs) (i : Nat) : Option.Rel R as[i]? bs[i]? := by
  induction h generalizing i with
  | nil => exact .none
  | cons first _ ih =>
    cases i with
    | zero => exact .some first
    | succ i => exact ih i

theorem forall₂_eraseIdx (h : List.Forall₂ R as bs) (i : Nat) :
    List.Forall₂ R (as.eraseIdx i) (bs.eraseIdx i) := by
  induction h generalizing i with
  | nil => exact .nil
  | cons first rest ih =>
    cases i with
    | zero => exact rest
    | succ i => exact .cons first (ih i)

theorem isEmpty_of_forall₂ (h : List.Forall₂ R as bs) : bs.isEmpty = as.isEmpty := by
  cases h <;> rfl

end

/-! ## Errors and state -/

section

variable {ε ε' σ σ' α β γ δ : Type}

/-- **The computations have ended alike.** -/
inductive Alike (S : σ → σ' → Prop) (E : ε → ε' → Prop) (R : α → β → Prop) :
    EStateM.Result ε σ α → EStateM.Result ε' σ' β → Prop
  | ok {a b s s'} (hs : S s s') (h : R a b) : Alike S E R (.ok a s) (.ok b s')
  | error {e e' s s'} (hs : S s s') (h : E e e') : Alike S E R (.error e s) (.error e' s')

/-- **The computations go in step.** -/
def InStep (S : σ → σ' → Prop) (E : ε → ε' → Prop) (R : α → β → Prop) (x : EStateM ε σ α)
    (y : EStateM ε' σ' β) : Prop :=
  ∀ s s', S s s' → Alike S E R (x s) (y s')

namespace InStep

variable {S : σ → σ' → Prop} {E : ε → ε' → Prop} {R : α → β → Prop} {T : γ → δ → Prop}
  {x : EStateM ε σ α} {y : EStateM ε' σ' β}

theorem pure {a : α} {b : β} (h : R a b) : InStep S E R (Pure.pure a) (Pure.pure b) :=
  fun _ _ hs => .ok hs h

theorem throw {e : ε} {e' : ε'} (h : E e e') :
    InStep S E R (throw e : EStateM ε σ α) (throw e' : EStateM ε' σ' β) :=
  fun _ _ hs => .error hs h

theorem get : InStep S E S MonadState.get MonadState.get := fun _ _ hs => .ok hs hs

theorem set {s : σ} {s' : σ'} (hs : S s s') :
    InStep S E (fun _ _ => True) (MonadStateOf.set s) (MonadStateOf.set s') :=
  fun _ _ _ => .ok hs trivial

theorem modify {f : σ → σ} {g : σ' → σ'} (h : ∀ s s', S s s' → S (f s) (g s')) :
    InStep S E (fun _ _ => True) (modify f) (modify g) :=
  fun s s' hs => .ok (h s s' hs) trivial

theorem bind {f : α → EStateM ε σ γ} {g : β → EStateM ε' σ' δ} (hx : InStep S E R x y)
    (hf : ∀ a b, R a b → InStep S E T (f a) (g b)) : InStep S E T (x >>= f) (y >>= g) := by
  intro s s' hs
  have first := hx s s' hs
  change Alike S E T (EStateM.bind x f s) (EStateM.bind y g s')
  unfold EStateM.bind
  generalize x s = result, y s' = result' at first
  cases first with
  | ok hs h => exact hf _ _ h _ _ hs
  | error hs h => exact .error hs h

theorem ite {p q : Prop} [Decidable p] [Decidable q] {x' : EStateM ε σ α} {y' : EStateM ε' σ' β}
    (hpq : q ↔ p) (h : InStep S E R x y) (h' : InStep S E R x' y') :
    InStep S E R (if p then x else x') (if q then y else y') := by
  by_cases hp : p
  · rw [if_pos hp, if_pos (hpq.2 hp)]
    exact h
  · rw [if_neg hp, if_neg fun hq => hp (hpq.1 hq)]
    exact h'

/-- Two loops over lists in correspondence. -/
theorem forM {C : γ → δ → Prop} {f : γ → EStateM ε σ PUnit} {g : δ → EStateM ε' σ' PUnit}
    {as : List γ} {bs : List δ} (h : List.Forall₂ C as bs)
    (each : ∀ a b, C a b → InStep S E (fun _ _ => True) (f a) (g b)) :
    InStep S E (fun _ _ => True) (as.forM f) (bs.forM g) := by
  induction h with
  | nil => exact .pure trivial
  | cons first _ ih => exact .bind (each _ _ first) fun _ _ _ => ih

/-- Two folds over the same list. -/
theorem foldlM {f : α → γ → EStateM ε σ α} {g : β → γ → EStateM ε' σ' β} {cs : List γ}
    (each : ∀ a b, ∀ c ∈ cs, R a b → InStep S E R (f a c) (g b c)) :
    ∀ {a : α} {b : β}, R a b → InStep S E R (cs.foldlM f a) (cs.foldlM g b) := by
  induction cs with
  | nil => exact fun h => .pure h
  | cons c cs ih =>
    intro a b h
    rw [List.foldlM_cons, List.foldlM_cons]
    exact .bind (each a b c (List.mem_cons_self ..) h) fun _ _ =>
      ih fun a b d hd => each a b d (List.mem_cons_of_mem _ hd)

/-- An error is caught where it has left the state. -/
theorem tryCatch {f : ε → EStateM ε σ α} {g : ε' → EStateM ε' σ' β} (hx : InStep S E R x y)
    (hf : ∀ e e', E e e' → InStep S E R (f e) (g e')) :
    InStep S E R (MonadExcept.tryCatch x f) (MonadExcept.tryCatch y g) := by
  intro s s' hs
  have first := hx s s' hs
  change Alike S E R (EStateM.tryCatch x f s) (EStateM.tryCatch y g s')
  unfold EStateM.tryCatch
  generalize x s = result, y s' = result' at first
  cases first with
  | ok hs h => exact .ok hs h
  | error hs h => exact hf _ _ h _ _ hs

end InStep

end

end Outcome

end Datalog
