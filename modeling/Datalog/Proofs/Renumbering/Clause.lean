import Datalog.Meaning.Session
import Datalog.Proofs.Compile.Renaming
import Datalog.Proofs.Flow
import Datalog.Proofs.Indices

/-!
# Proofs/Renumbering/Clause — the same clause with other variables

Two planned clauses **correspond** if a renaming takes one to the other, their lookups go through
indices that stand for the same, and their slots are split alike.  Under bindings that correspond,
terms have the same value, goals ask with the same key and tuples bind the same; what fails, fails
with the same fault up to the renaming.
-/

namespace Datalog

variable {ρ : Var → Var} {fns : Functions}

/-! ## Bindings -/

/-- **The same bindings**, for the renamed variables. -/
def Bindings.Like (ρ : Var → Var) (b b' : Bindings) : Prop := ∀ v, b'.get? (ρ v) = b.get? v

namespace Bindings.Like

variable {b b' : Bindings}

theorem empty : Like ρ ∅ ∅ := fun _ => rfl

variable (hρ : Function.Injective ρ)
include hρ

theorem put (h : Like ρ b b') (v : Var) (t : Term) : Like ρ (b.put v t) (b'.put (ρ v) t) := by
  intro w
  rw [Assoc.get?_put, Assoc.get?_put, h w]
  by_cases hv : v = w
  · rw [if_pos hv, if_pos (congrArg ρ hv)]
  · rw [if_neg hv, if_neg fun e => hv (hρ e)]

theorem putAll (h : Like ρ b b') (pairs : List (Var × Term)) :
    Like ρ (b.putAll pairs) (b'.putAll (pairs.map (Prod.map ρ id))) := by
  induction pairs generalizing b b' with
  | nil => exact h
  | cons e es ih =>
    rw [List.map_cons, Assoc.putAll_cons, Assoc.putAll_cons]
    exact ih (h.put hρ e.1 e.2)

/-- **What a tuple binds.** -/
theorem bind (h : Like ρ b b') (g : Goal) (tuple : Tuple) :
    Like ρ (g.bind tuple b) ((g.rename ρ).bind tuple b') := by
  have pairs : (g.rename ρ).bindingsOf tuple = (g.bindingsOf tuple).map (Prod.map ρ id) := by
    rw [Goal.bindingsOf, Goal.bindingsOf, Goal.rename, List.zip_map_left, List.flatMap_map,
      List.map_flatMap]
    refine List.flatMap_congr fun e _ => ?_
    obtain ⟨arg, t⟩ := e
    cases arg <;> rfl
  rw [Goal.bind_eq_putAll, Goal.bind_eq_putAll, pairs]
  exact h.putAll hρ _

end Bindings.Like

/-! ## Values -/

/-- **The same way to stop early**, up to the renaming. -/
inductive Abort.Like (ρ : Var → Var) : Abort → Abort → Prop
  | fault {f f' : Fault} (h : f.RenamedBy ρ f') : Like ρ (.fault f) (.fault f')
  | crash (message : Option String) : Like ρ (.crash message) (.crash message)

namespace Abort.Like

theorem refl : ∀ e : Abort, e.Like ρ e
  | .fault f => .fault (.same f)
  | .crash message => .crash message

theorem within {e e' : Abort} {context context' : Fault → Fault} (h : e.Like ρ e')
    (both : ∀ f f', f.RenamedBy ρ f' → (context f).RenamedBy ρ (context' f')) :
    (e.within context).Like ρ (e'.within context') := by
  cases h with
  | fault h => exact .fault (both _ _ h)
  | crash message => exact .crash message

end Abort.Like

open Outcome (Pair)

/-- A computation that is the same on both sides. -/
theorem Outcome.Pair.refl {α : Type} (x : Except Abort α) : Pair (Abort.Like ρ) Eq x x := by
  cases x with
  | ok a => exact .ok rfl
  | error e => exact .error (.refl e)

/-- **A list of values**, one for each term. -/
theorem Outcome.Pair.mapM_eq {α β γ : Type} {f : α → Except Abort γ} {g : β → Except Abort γ}
    {as : List α} {bs : List β} (h : List.Forall₂ (fun a b => Pair (Abort.Like ρ) Eq (f a) (g b)) as bs) :
    Pair (Abort.Like ρ) Eq (as.mapM f) (bs.mapM g) :=
  (mapM h).imp fun _ _ same => List.forall₂_eq_eq_eq ▸ same

namespace Term

/-- **A renamed term has the value of the term**, where the renamed variables have their values. -/
theorem valueIn_rename {env env' : Env} (h : ∀ v, env' (ρ v) = env v) (t : Term) :
    Pair (Abort.Like ρ) Eq (t.valueIn env fns) ((t.rename ρ).valueIn env' fns) := by
  have all {args : List Term}
      (ih : ∀ a ∈ args, Pair (Abort.Like ρ) Eq (a.valueIn env fns) ((a.rename ρ).valueIn env' fns)) :
      Pair (Abort.Like ρ) Eq (valuesIn env fns args) (valuesIn env' fns (renameAll ρ args)) := by
    rw [valuesIn_eq_mapM, valuesIn_eq_mapM, renameAll_eq_map]
    exact .mapM_eq (List.forall₂_map_right_iff.2 (List.forall₂_same.2 ih))
  induction t with
  | var v =>
    rw [rename, valueIn, valueIn, h]
    cases env v with
    | none => exact .error (.fault (.unbound v))
    | some t => exact .ok rfl
  | lit v => exact .ok rfl
  | ctor f args ih =>
    rw [rename, valueIn, valueIn]
    exact (all ih).bind fun _ _ same => .ok (congrArg (ctor f) same)
  | call f args ih =>
    rw [rename, valueIn, valueIn]
    refine (all ih).bind fun xs _ same => ?_
    subst same
    exact .refl _

theorem evaluate_rename {b b' : Bindings} (h : b.Like ρ b') (t : Term) :
    Pair (Abort.Like ρ) Eq (t.evaluate b fns) ((t.rename ρ).evaluate b' fns) := by
  rw [evaluate_eq_valueIn, evaluate_eq_valueIn]
  exact valueIn_rename h t

end Term

theorem Tuple.evaluate_rename {b b' : Bindings} (h : b.Like ρ b') (ts : Tuple) :
    Pair (Abort.Like ρ) Eq (Tuple.evaluate b fns ts)
      (Tuple.evaluate b' fns (ts.map (Term.rename ρ))) :=
  .mapM_eq (List.forall₂_map_right_iff.2 (List.forall₂_same.2 fun t _ => t.evaluate_rename h))

/-- **A renamed goal asks with the same key.** -/
theorem Goal.key_rename {b b' : Bindings} (h : b.Like ρ b') (g : Goal) :
    Pair (Abort.Like ρ) Eq (g.key fns b) ((g.rename ρ).key fns b') := by
  refine .mapM_eq (List.forall₂_map_right_iff.2 (List.forall₂_same.2 fun arg _ => ?_))
  cases arg with
  | bound t => exact (t.evaluate_rename h).map fun _ _ same => congrArg some same
  | free | ignored => exact .ok rfl

/-! ## Renamed steps -/

namespace Step

variable {b b' : Bindings}

theorem performAssign_rename (hρ : Function.Injective ρ) (h : b.Like ρ b') (v : Var) (t : Term) :
    Pair (Abort.Like ρ) (Bindings.Like ρ) (performAssign fns v t b)
      (performAssign fns (ρ v) (t.rename ρ) b') := by
  refine (t.evaluate_rename h).bind fun x _ same => ?_
  subst same
  exact .ok (h.put hρ v x)

theorem performCheck_rename (h : b.Like ρ b') (l r : Term) (negated : Bool) :
    Pair (Abort.Like ρ) Eq (performCheck fns l r negated b)
      (performCheck fns (l.rename ρ) (r.rename ρ) negated b') := by
  refine (l.evaluate_rename h).bind fun x _ hx => (r.evaluate_rename h).bind fun y _ hy => ?_
  subst hx hy
  exact .ok rfl

/-- **Taking a value apart** gives the renamed variables the same arguments. -/
theorem performDestruct_rename (hρ : Function.Injective ρ) (h : b.Like ρ b') (t : Term) (f : String)
    (ys : List Var) :
    Pair (Abort.Like ρ) (Option.Rel (Bindings.Like ρ)) (performDestruct fns t f ys b)
      (performDestruct fns (t.rename ρ) f (ys.map ρ) b') := by
  refine (t.evaluate_rename h).bind fun x _ hx => ?_
  subst hx
  cases x with
  | var | lit | call => exact .ok .none
  | ctor g args =>
    dsimp only
    rw [List.length_map]
    split
    · rw [List.zip_map_left]
      exact .ok (.some (h.putAll hρ (ys.zip args)))
    · exact .ok .none

end Step

theorem Goal.boundPositions_rename (g : Goal) : (g.rename ρ).boundPositions = g.boundPositions := by
  have bound : (fun a : Arg × Nat => a.1.isBound) ∘ Prod.map (Arg.rename ρ) id =
      fun a => a.1.isBound := funext fun a => by
    obtain ⟨arg, _⟩ := a
    cases arg <;> rfl
  rw [boundPositions, boundPositions, rename, List.zipIdx_map, List.filter_map, bound,
    List.map_map]
  rfl

theorem Step.positiveGoal?_rename (s : Step) :
    (s.rename ρ).positiveGoal? = s.positiveGoal?.map (Goal.rename ρ) := by
  cases s with
  | assign | check | destruct => rfl
  | lookup g =>
    obtain ⟨r, args, negated, delta⟩ := g
    cases negated <;> rfl

theorem Term.functions_rename (t : Term) : (t.rename ρ).functions = t.functions := by
  have all {args : List Term} (ih : ∀ a ∈ args, (a.rename ρ).functions = a.functions) :
      functionsOf (renameAll ρ args) = functionsOf args := by
    rw [renameAll_eq_map, functionsOf_eq_flatMap, functionsOf_eq_flatMap, List.flatMap_map]
    exact List.flatMap_congr ih
  induction t with
  | var | lit => rfl
  | ctor f args ih => exact all ih
  | call f args ih => exact congrArg (f :: ·) (all ih)

theorem Term.mentions_rename (p : String → Bool) (t : Term) :
    (t.rename ρ).mentions p = t.mentions p := by
  rw [mentions, mentions, functions_rename]

theorem Step.mentions_rename (p : String → Bool) (s : Step) :
    (s.rename ρ).mentions p = s.mentions p := by
  cases s with
  | assign v t => exact t.mentions_rename p
  | check l r negated => exact congrArg₂ or (l.mentions_rename p) (r.mentions_rename p)
  | destruct t f ys => exact t.mentions_rename p
  | lookup g =>
    rw [rename, mentions, mentions, Goal.terms_rename, List.any_map]
    exact List.any_congr rfl fun t => t.mentions_rename p

/-! ## Planned clauses -/

variable {k : Relation → Nat} {n : Nat}

/-- **Slots that correspond**: only the first `k` indices of a relation are told apart. -/
structure Slot.Like (k : Relation → Nat) (ρ : Var → Var) (s s' : Slot) : Prop where
  step : s'.step = s.step.rename ρ
  index : ∀ g, s.step = .lookup g → IndexNumber.Like (k g.relation) s.index s'.index
  split : s'.split = s.split

/-- The clauses correspond under the renaming, and the head has the arity of its relation. -/
structure PlannedClause.LikeBy (k : Relation → Nat) (ρ : Var → Var) (c c' : PlannedClause) :
    Prop where
  head : c'.head = c.head.rename ρ
  body : List.Forall₂ (Slot.Like k ρ) c.body c'.body
  arity : c.head.args.length = c.head.relation.arity

/-- **Clauses that correspond**, whatever numbers from `n` on their variables have. -/
def PlannedClause.Like (k : Relation → Nat) (n : Nat) (c c' : PlannedClause) : Prop :=
  ∃ ρ, Var.Renumbers n ρ ∧ c.LikeBy k ρ c'

theorem Var.Renumbers.refl (n : Nat) : Var.Renumbers n id :=
  ⟨Function.injective_id, fun _ => rfl, fun _ _ => rfl⟩

theorem Var.Renumbers.shift (n m : Nat) : Var.Renumbers n (Var.shift n m) := by
  refine ⟨Var.shift_injective n m, fun v => ?_, fun v hv => Var.shift_of_lt hv⟩
  rw [Var.shift]
  split <;> rfl

/-- A clause corresponds to itself. -/
theorem PlannedClause.Like.refl {c : PlannedClause}
    (arity : c.head.args.length = c.head.relation.arity) : c.Like k n c := by
  refine ⟨id, .refl n, c.head.rename_id.symm, List.forall₂_same.2 fun s _ => ?_, arity⟩
  exact ⟨s.step.rename_id.symm, fun _ _ => rfl, rfl⟩

namespace PlannedClause.LikeBy

variable {c c' : PlannedClause}

/-- The clauses without indices and marks. -/
theorem clause (h : c.LikeBy k ρ c') : c'.clause = c.clause.rename ρ := by
  have body : c'.body.map Slot.step = (c.body.map Slot.step).map (Step.rename ρ) := by
    have slots := h.body
    generalize c.body = body, c'.body = body' at slots
    induction slots with
    | nil => rfl
    | cons first _ ih => rw [List.map_cons, List.map_cons, List.map_cons, first.step, ih]
  rw [PlannedClause.clause, PlannedClause.clause, Clause.rename, h.head, body]

theorem relation (h : c.LikeBy k ρ c') : c'.head.relation = c.head.relation := by
  rw [h.head]
  rfl

theorem rule {f f' : Fault} (h : c.LikeBy k ρ c') (hf : f.RenamedBy ρ f') :
    Fault.RenamedBy ρ (.inRule c.text f) (.inRule c'.text f') := by
  rw [PlannedClause.text, PlannedClause.text, h.clause]
  exact .rule _ hf

end PlannedClause.LikeBy

/-! ## Finite maps -/

namespace Assoc

variable {α : Type u} {β γ : Type v} [DecidableEq α] {R : β → γ → Prop}

/-- **The same keys in the same order**, with values that correspond. -/
def Like (R : β → γ → Prop) (m : Assoc α β) (m' : Assoc α γ) : Prop :=
  List.Forall₂ (fun e e' => e'.1 = e.1 ∧ R e.2 e'.2) m.entries m'.entries

variable {m : Assoc α β} {m' : Assoc α γ}

theorem Like.get? (h : m.Like R m') (key : α) : Option.Rel R (m.get? key) (m'.get? key) := by
  change List.Forall₂ _ m.entries m'.entries at h
  rw [Assoc.get?, Assoc.get?]
  generalize m.entries = es, m'.entries = es' at h
  induction h with
  | nil => exact .none
  | cons first _ ih =>
    rw [find, find, first.1]
    split
    · exact .some first.2
    · exact ih

theorem Like.contains (h : m.Like R m') (key : α) : m'.contains key = m.contains key := by
  have found := h.get? key
  rw [Assoc.contains, Assoc.contains]
  generalize m.get? key = x, m'.get? key = y at found
  cases found <;> rfl

theorem Like.put (h : m.Like R m') (key : α) {x : β} {y : γ} (hxy : R x y) :
    (m.put key x).Like R (m'.put key y) := by
  change List.Forall₂ _ (write key x m.entries) (write key y m'.entries)
  change List.Forall₂ _ m.entries m'.entries at h
  generalize m.entries = es, m'.entries = es' at h
  induction h with
  | nil => exact .cons ⟨rfl, hxy⟩ .nil
  | cons first rest ih =>
    rw [write, write, first.1]
    split
    · exact .cons ⟨rfl, hxy⟩ rest
    · exact .cons first ih

end Assoc

/-! ## Strata -/

/-- **Strata that correspond**, clause by clause. -/
structure Stratum.Like (k : Relation → Nat) (n : Nat) (s s' : Stratum) : Prop where
  base : List.Forall₂ (PlannedClause.Like k n) s.base s'.base
  recursive : s.recursive.Like (List.Forall₂ (PlannedClause.Like k n)) s'.recursive

namespace Stratum.Like

variable {s s' : Stratum}

theorem empty : Stratum.Like k n {} {} := ⟨.nil, .nil⟩

theorem firedBy (h : s.Like k n s') (r : Relation) :
    List.Forall₂ (PlannedClause.Like k n) (s.firedBy r) (s'.firedBy r) := by
  have found := h.recursive.get? r
  rw [Stratum.firedBy, Stratum.firedBy]
  generalize s.recursive.get? r = x, s'.recursive.get? r = y at found
  cases found with
  | none => exact .nil
  | some clauses => exact clauses

theorem addBase {c c' : PlannedClause} (h : s.Like k n s') (hc : c.Like k n c') :
    Stratum.Like k n { s with base := s.base ++ [c] } { s' with base := s'.base ++ [c'] } :=
  ⟨List.rel_append h.base (.cons hc .nil), h.recursive⟩

theorem addRecursive {c c' : PlannedClause} (h : s.Like k n s') (r : Relation)
    (hc : c.Like k n c') : (s.addRecursive r c).Like k n (s'.addRecursive r c') :=
  ⟨h.base, h.recursive.put r (List.rel_append (h.firedBy r) (.cons hc .nil))⟩

end Stratum.Like

end Datalog
