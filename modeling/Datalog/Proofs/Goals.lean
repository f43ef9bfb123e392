import Datalog.Meaning.Clause
import Datalog.Proofs.Assoc
import Datalog.Proofs.Value

/-!
# Proofs/Goals — what steps read, and what goals ask for

A step **reads** the variables of the terms it evaluates and **writes** the variables it binds; an
ignored argument does neither.  The key of a goal depends on the variables that its arguments read
(`Goal.key_congr`), a tuple agrees with it if it meets each argument (`Goal.agrees_iff`), and then
the goal binds the variables that its arguments write.
-/

namespace Datalog

/-! ## Bindings that agree -/

namespace Bindings

/-- **The bindings agree** on the variables. -/
def Agree (vs : List Var) (b c : Bindings) : Prop := ∀ v ∈ vs, b.get? v = c.get? v

theorem Agree.symm {vs : List Var} {b c : Bindings} (h : Agree vs b c) : Agree vs c b :=
  fun v hv => (h v hv).symm

theorem Agree.trans {vs : List Var} {b c d : Bindings} (h : Agree vs b c) (h' : Agree vs c d) :
    Agree vs b d :=
  fun v hv => (h v hv).trans (h' v hv)

theorem Agree.subset {vs ws : List Var} {b c : Bindings} (h : Agree vs b c) (hs : ws ⊆ vs) :
    Agree ws b c :=
  fun v hv => h v (hs hv)

/-- Equal pairs put into bindings that agree. -/
theorem Agree.putAll {vs : List Var} (pairs : List (Var × Term)) : ∀ {b c : Bindings},
    Agree vs b c → Agree (vs ++ pairs.map Prod.fst) (b.putAll pairs) (c.putAll pairs) := by
  induction pairs generalizing vs with
  | nil => intro b c h; rwa [List.map_nil, List.append_nil]
  | cons e es ih =>
    intro b c h
    have step : Agree (vs ++ [e.1]) (b.put e.1 e.2) (c.put e.1 e.2) := by
      intro v hv
      rw [Assoc.get?_put, Assoc.get?_put]
      split
      · rfl
      · next hne =>
        rcases List.mem_append.1 hv with hv | hv
        · exact h v hv
        · exact absurd (List.mem_singleton.1 hv).symm hne
    rw [Assoc.putAll_cons, Assoc.putAll_cons, List.map_cons, List.append_cons]
    exact ih step

/-- **Every one of the variables is bound.** -/
def Defined (vs : List Var) (b : Bindings) : Prop := ∀ v ∈ vs, ∃ x, b.get? v = some x

/-- Pairs put for other variables make no difference. -/
theorem agree_putAll {vs : List Var} {pairs : List (Var × Term)} {b : Bindings}
    (h : List.Disjoint vs (pairs.map Prod.fst)) : Agree vs (b.putAll pairs) b :=
  fun _ hv => Assoc.get?_putAll_of_notMem (h hv)

/-- What is put is bound, and so is what was bound before. -/
theorem Defined.putAll {vs : List Var} {pairs : List (Var × Term)} {b : Bindings}
    (h : Defined vs b) (hd : (pairs.map Prod.fst).Nodup) :
    Defined (vs ++ pairs.map Prod.fst) (b.putAll pairs) := by
  intro v hv
  by_cases hm : v ∈ pairs.map Prod.fst
  · obtain ⟨e, he, rfl⟩ := List.mem_map.1 hm
    exact ⟨e.2, Assoc.get?_putAll_of_mem hd he⟩
  · rw [Assoc.get?_putAll_of_notMem hm]
    exact h v ((List.mem_append.1 hv).resolve_right hm)

end Bindings

/-! ## Reading and writing -/

/-- The variables of a bound argument. -/
def Arg.reads : Arg → List Var
  | bound t => t.occurrences
  | _ => []

/-- The variable of a free argument. -/
def Arg.writes : Arg → List Var
  | free v => [v]
  | _ => []

namespace Step

/-- **The variables whose values a step needs.** -/
def reads : Step → List Var
  | assign _ t => t.occurrences
  | check l r _ => l.occurrences ++ r.occurrences
  | destruct t _ _ => t.occurrences
  | lookup g => g.args.flatMap Arg.reads

/-- **The variables that a step binds.** -/
def writes : Step → List Var
  | assign v _ => [v]
  | check .. => []
  | destruct _ _ ys => ys
  | lookup g => if g.negated then [] else g.args.flatMap Arg.writes

/-- The variables that steps bind. -/
def written (steps : List Step) : List Var := steps.flatMap writes

@[simp] theorem written_nil : written [] = [] := rfl

@[simp] theorem written_cons (step : Step) (steps : List Step) :
    written (step :: steps) = step.writes ++ written steps := rfl

@[simp] theorem written_append (ss ss' : List Step) :
    written (ss ++ ss') = written ss ++ written ss' := List.flatMap_append ..

/-- **Every step reads what is bound before it and binds what is not**; `known` is bound at the
start. -/
def InOrder (known : List Var) : List Step → Prop
  | [] => True
  | step :: rest => step.reads ⊆ known ∧ List.Disjoint known step.writes ∧ step.writes.Nodup ∧
      InOrder (known ++ step.writes) rest

theorem inOrder_append {known : List Var} : ∀ {ss ss' : List Step},
    InOrder known (ss ++ ss') ↔ InOrder known ss ∧ InOrder (known ++ written ss) ss'
  | [], ss' => by simp [InOrder]
  | step :: ss, ss' => by
    simp only [List.cons_append, InOrder, inOrder_append, written_cons,
      List.append_assoc, and_assoc]

theorem InOrder.disjoint {known : List Var} {ss : List Step} (h : InOrder known ss) :
    List.Disjoint known (written ss) := by
  induction ss generalizing known with
  | nil => simp
  | cons step ss ih =>
    rw [written_cons, List.disjoint_append_right]
    exact ⟨h.2.1, List.disjoint_of_disjoint_append_left_left (ih h.2.2.2)⟩

end Step

/-! ## Goals -/

/-- The value stands where the argument asks for it. -/
def Arg.Meets (env : Env) (fns : Functions) (arg : Arg) (x : Term) : Prop :=
  ∀ t, arg = .bound t → t.value? env fns = some x

/-- What an argument adds to the key of its goal: its value if it is bound, and nothing
otherwise. -/
def Arg.Keys (b : Bindings) (fns : Functions) : Arg → Option Term → Prop
  | .bound t, k => ∃ x, t.value? b.get? fns = some x ∧ k = some x
  | .free _, k => k = none
  | .ignored _, k => k = none

namespace Goal

variable {fns : Functions} {b c : Bindings} {g : Goal}

/-- The bindings that a tuple makes, in the order of the arguments. -/
def bindingsOf (g : Goal) (tuple : Tuple) : List (Var × Term) :=
  (g.args.zip tuple).flatMap fun e => e.1.writes.map fun v => (v, e.2)

theorem bind_eq_putAll (g : Goal) (tuple : Tuple) (b : Bindings) :
    g.bind tuple b = b.putAll (g.bindingsOf tuple) := by
  rw [bind, bindingsOf]
  induction g.args.zip tuple generalizing b with
  | nil => rfl
  | cons e es ih =>
    rw [List.foldl_cons, List.flatMap_cons, ih]
    cases e.1 <;> rfl

theorem map_fst_bindingsOf_subset (g : Goal) (tuple : Tuple) :
    (g.bindingsOf tuple).map Prod.fst ⊆ g.args.flatMap Arg.writes := by
  intro v hv
  obtain ⟨_, he, rfl⟩ := List.mem_map.1 hv
  obtain ⟨e, hz, he⟩ := List.mem_flatMap.1 he
  obtain ⟨w, hw, rfl⟩ := List.mem_map.1 he
  exact List.mem_flatMap.2 ⟨e.1, (List.of_mem_zip hz).1, hw⟩

/-- A tuple as long as the goal binds all of its free variables. -/
theorem map_fst_bindingsOf {tuple : Tuple} (h : g.args.length ≤ tuple.length) :
    (g.bindingsOf tuple).map Prod.fst = g.args.flatMap Arg.writes := by
  have all : ∀ {args : List Arg} {tuple : Tuple}, args.length ≤ tuple.length →
      ((args.zip tuple).flatMap fun e => e.1.writes.map fun v => (v, e.2)).map Prod.fst =
        args.flatMap Arg.writes := by
    intro args
    induction args with
    | nil => intro tuple _; rfl
    | cons arg args ih =>
      intro tuple h
      cases tuple with
      | nil => exact absurd h (by simp)
      | cons x tuple =>
        rw [List.zip_cons_cons, List.flatMap_cons, List.map_append,
          ih (Nat.le_of_succ_le_succ h), List.flatMap_cons, List.map_map]
        exact congrArg (· ++ _) (List.map_id _)
  exact all h

/-- The key depends on what the goal reads. -/
theorem key_congr (h : Bindings.Agree (g.args.flatMap Arg.reads) b c) :
    g.key fns b = g.key fns c := by
  refine Outcome.mapM_congr fun arg harg => ?_
  cases arg with
  | bound t =>
    have ht : t.evaluate b fns = t.evaluate c fns :=
      Term.evaluate_congr fun v hv => h v (List.mem_flatMap.2 ⟨_, harg, hv⟩)
    simp only [ht]
  | free v => rfl
  | ignored v => rfl

theorem key_eq_ok_iff {key : Key} :
    g.key fns b = .ok key ↔ List.Forall₂ (Arg.Keys b fns) g.args key := by
  rw [Goal.key, Outcome.mapM_ok_iff]
  have bound {t : Term} {k : Option Term} : (some <$> t.evaluate b fns : Except Abort _) = .ok k ↔
      ∃ x, t.value? b.get? fns = some x ∧ k = some x := by
    simp only [← Term.evaluate_eq_ok_iff]
    cases t.evaluate b fns <;> simp [Functor.map, Except.map, eq_comm]
  constructor
  · refine List.Forall₂.imp fun arg k hk => ?_
    cases arg with
    | bound t => exact bound.1 hk
    | free v => exact (Except.ok.inj hk).symm
    | ignored v => exact (Except.ok.inj hk).symm
  · refine List.Forall₂.imp fun arg k hk => ?_
    cases arg with
    | bound t => exact bound.2 hk
    | free v => exact congrArg Except.ok hk.symm
    | ignored v => exact congrArg Except.ok hk.symm

/-- **A goal has a key** if every bound argument has a value. -/
theorem exists_key_iff : (∃ key, g.key fns b = .ok key) ↔
    ∀ t, .bound t ∈ g.args → ∃ x, t.value? b.get? fns = some x := by
  simp only [key_eq_ok_iff]
  induction g.args with
  | nil => exact ⟨fun _ _ ht => absurd ht List.not_mem_nil, fun _ => ⟨[], .nil⟩⟩
  | cons arg args ih =>
    constructor
    · rintro ⟨_, _ | ⟨hk, h⟩⟩ t ht
      rcases List.mem_cons.1 ht with rfl | ht
      · exact ⟨_, hk.choose_spec.1⟩
      · exact ih.1 ⟨_, h⟩ t ht
    · intro h
      obtain ⟨ks, hks⟩ := ih.2 fun t ht => h t (List.mem_cons_of_mem _ ht)
      cases arg with
      | bound t =>
        obtain ⟨x, hx⟩ := h t (List.mem_cons_self ..)
        exact ⟨some x :: ks, .cons ⟨x, hx, rfl⟩ hks⟩
      | free v => exact ⟨none :: ks, .cons rfl hks⟩
      | ignored v => exact ⟨none :: ks, .cons rfl hks⟩

/-- **A goal has no key** because of one of its bound arguments. -/
theorem exists_of_key_error {e : Abort} (h : g.key fns b = .error e) :
    ∃ t, .bound t ∈ g.args ∧ t.evaluate b fns = .error e := by
  obtain ⟨arg, harg, he⟩ := Outcome.exists_of_mapM_error h
  cases arg with
  | bound t => exact ⟨t, harg, Outcome.except_map_error_iff.1 he⟩
  | free | ignored => cases he

theorem exists_key_of_meets {tuple : Tuple} (h : List.Forall₂ (Arg.Meets b.get? fns) g.args tuple) :
    ∃ key, g.key fns b = .ok key := by
  refine exists_key_iff.2 fun t ht => ?_
  obtain ⟨x, _, hx⟩ := Outcome.exists_of_forall₂ h ht
  exact ⟨x, hx t rfl⟩

/-- **Agreement with the key, argument by argument**, for a tuple of the goal's length. -/
theorem agrees_iff {key : Key} {tuple : Tuple} (hkey : g.key fns b = .ok key)
    (hlen : tuple.length = g.args.length) :
    key.agrees tuple = true ↔ List.Forall₂ (Arg.Meets b.get? fns) g.args tuple := by
  rw [key_eq_ok_iff] at hkey
  generalize g.args = args at hkey hlen
  induction hkey generalizing tuple with
  | nil =>
    obtain rfl := List.length_eq_zero_iff.1 hlen
    exact ⟨fun _ => .nil, fun _ => rfl⟩
  | @cons arg k args key hk _ ih =>
    cases tuple with
    | nil => exact absurd hlen (by simp)
    | cons x tuple =>
      rw [List.forall₂_cons, ← ih (Nat.succ.inj hlen)]
      cases arg with
      | bound t =>
        obtain ⟨y, hy, rfl⟩ := hk
        simp [Key.agrees, Arg.Meets, hy]
      | free v =>
        obtain rfl : k = none := hk
        simp [Key.agrees, Arg.Meets]
      | ignored v =>
        obtain rfl : k = none := hk
        simp [Key.agrees, Arg.Meets]

end Goal

end Datalog
