import Datalog.Proofs.Compile.Queue

/-!
# Proofs/Compile/Size — clauses are linear in their rules

Each node that a literal writes accounts for one step and one invented variable at most: a node is
checked, bound or taken apart once, and it gets at most one variable in its place.  With one more
step for the goal, this bounds what a literal adds, whether it is accepted or not
(`Compile.costs_literal`).  Summed up over the body, and run from the queue, this is
`Rule.compile_linear`.
-/

namespace Datalog

/-! ## What is added to a draft -/

/-- **At most so many steps and invented variables** are added between the drafts. -/
structure Draft.Expands (steps fresh : Nat) (d d' : Draft) : Prop where
  steps : ∃ new, d'.steps = d.steps ++ new ∧ new.length ≤ steps
  next_le : d.next ≤ d'.next
  next : d'.next ≤ d.next + fresh

namespace Draft.Expands

variable {d d' d'' : Draft} {k k' m m' : Nat}

theorem refl (d : Draft) : d.Expands 0 0 d :=
  ⟨⟨[], (List.append_nil _).symm, Nat.le_refl _⟩, Nat.le_refl _, Nat.le_refl _⟩

theorem trans (h : d.Expands k m d') (h' : d'.Expands k' m' d'') :
    d.Expands (k + k') (m + m') d'' := by
  obtain ⟨⟨new, steps, length⟩, next_le, next⟩ := h
  obtain ⟨⟨new', steps', length'⟩, next_le', next'⟩ := h'
  refine ⟨⟨new ++ new', by rw [steps', steps, List.append_assoc], ?_⟩, by omega, by omega⟩
  rw [List.length_append]
  omega

theorem mono (h : d.Expands k m d') (hk : k ≤ k') (hm : m ≤ m') : d.Expands k' m' d' := by
  obtain ⟨⟨new, steps, length⟩, next_le, next⟩ := h
  exact ⟨⟨new, steps, Nat.le_trans length hk⟩, next_le, by omega⟩

theorem emitted (d : Draft) (step : Step) : d.Expands 1 0 (d.emitted step) :=
  ⟨⟨[step], rfl, Nat.le_refl _⟩, Nat.le_refl _, Nat.le_refl _⟩

theorem withNext (d : Draft) (n : Nat) : d.Expands 0 n { d with next := d.next + n } :=
  ⟨⟨[], (List.append_nil _).symm, Nat.le_refl _⟩, Nat.le_add_right .., Nat.le_refl _⟩

end Draft.Expands

namespace Compile

open Draft

variable {rule : Rule} {mode : Unification} {α β : Type}

/-- The draft that compilation ends with, refused or not. -/
def draftOf : EStateM.Result Rejection Draft α → Draft
  | .ok _ d | .error _ d => d

/-- **The action adds at most so many steps and invented variables.** -/
def Costs (x : Compile α) (steps fresh : Nat) : Prop :=
  ∀ d : Draft, d.Expands steps fresh (draftOf (x d))

namespace Costs

variable {x y : Compile α} {f : α → Compile β} {k k' m m' : Nat}

theorem mono (h : Costs x k m) (hk : k ≤ k') (hm : m ≤ m') : Costs x k' m' :=
  fun d => (h d).mono hk hm

theorem bind (h : Costs x k m) (hf : ∀ a, Costs (f a) k' m') :
    Costs (x >>= f) (k + k') (m + m') := by
  intro d
  have first := h d
  cases hx : x d with
  | ok a d' =>
    rw [hx] at first
    rw [Outcome.bind_of_ok hx]
    exact first.trans (hf a d')
  | error r d' =>
    rw [hx] at first
    rw [Outcome.bind_of_error hx]
    exact first.mono (Nat.le_add_right ..) (Nat.le_add_right ..)

/-- What costs nothing may come first. -/
theorem after (h : Costs x 0 0) (hf : ∀ a, Costs (f a) k m) : Costs (x >>= f) k m :=
  (h.bind hf).mono (Nat.le_of_eq (Nat.zero_add k)) (Nat.le_of_eq (Nat.zero_add m))

theorem pure (a : α) : Costs (Pure.pure a : Compile α) 0 0 := fun d => .refl d

theorem throw (r : Rejection) : Costs (throw r : Compile α) 0 0 := fun d => .refl d

theorem ite {p : Prop} [Decidable p] (hx : Costs x k m) (hy : Costs y k m) :
    Costs (if p then x else y) k m := by
  split
  · exact hx
  · exact hy

theorem current (t : Term) : Costs (current t) 0 0 := fun d => .refl d

theorem isBound (t : Term) : Costs (isBound t) 0 0 := fun d => .refl d

theorem emit (step : Step) : Costs (emit step) 1 0 := fun d => .emitted d step

theorem inline (v : Var) (t : Term) : Costs (inline v t) 0 0 := fun _ =>
  ⟨⟨[], (List.append_nil _).symm, Nat.le_refl _⟩, Nat.le_refl _, Nat.le_refl _⟩

theorem inventAll (ts : List Term) : Costs (inventAll ts) 0 ts.length := by
  intro d
  have invented : Compile.inventAll ts d = .ok _ _ := inventAll_ok_iff.2 ⟨rfl, rfl⟩
  rw [invented]
  exact .withNext d ts.length

end Costs

/-! ## What nodes pay for -/

theorem costs_equateBinders {ts : List Term}
    (ih : ∀ t ∈ ts, ∀ (l : Literal) (value : Term),
      Costs (bindPattern rule mode l value t) t.nodes (t.nodes - 1)) :
    ∀ ys : List Var, Costs (equateBinders rule mode ys ts) (Term.nodesOf ts)
      (Term.nodesOf ts - ts.length) := by
  induction ts with
  | nil =>
    intro ys
    cases ys <;> exact .pure ()
  | cons t ts ihts =>
    intro ys
    cases ys with
    | nil => exact (Costs.pure ()).mono (Nat.zero_le _) (Nat.zero_le _)
    | cons y ys =>
      have rest := ihts (fun u hu => ih u (List.mem_cons_of_mem _ hu)) ys
      have pos := t.nodes_pos
      have le := Term.length_le_nodesOf ts
      rw [equateBinders, Term.nodesOf, List.length_cons]
      refine .after (.current t) fun t' => .after (.isBound t') fun _ => .ite ?_ ?_
      · exact ((Costs.emit _).bind fun _ => rest).mono (by omega) (by omega)
      · exact ((ih t (List.mem_cons_self ..) _ _).bind fun _ => rest).mono (by omega) (by omega)

/-- **A pattern pays** for its steps with its nodes, and for what it invents with those below its
root. -/
theorem costs_bindPattern (t : Term) : ∀ (l : Literal) (value : Term),
    Costs (bindPattern rule mode l value t) t.nodes (t.nodes - 1) := by
  induction t with
  | var v =>
    intro l value
    rw [bindPattern]
    exact .ite ((Costs.inline v value).mono (Nat.zero_le _) (Nat.zero_le _)) (.emit _)
  | ctor f args ih =>
    intro l value
    have le := Term.length_le_nodesOf args
    rw [bindPattern, Term.nodes]
    refine Costs.mono (.bind (.inventAll args) fun ys => .bind (.emit _) fun _ =>
      costs_equateBinders ih ys) ?_ ?_ <;> omega
  | lit | call =>
    intro l value
    rw [bindPattern]
    exact (Costs.throw _).mono (Nat.zero_le _) (Nat.zero_le _)

theorem costs_equateAll {ls : List Term}
    (ih : ∀ l ∈ ls, ∀ r : Term,
      Costs (equate rule mode l r) (l.nodes + r.nodes) (l.nodes + r.nodes)) :
    ∀ rs : List Term, Costs (equateAll rule mode ls rs) (Term.nodesOf ls + Term.nodesOf rs)
      (Term.nodesOf ls + Term.nodesOf rs) := by
  induction ls with
  | nil =>
    intro rs
    cases rs <;> exact (Costs.pure ()).mono (Nat.zero_le _) (Nat.zero_le _)
  | cons l ls ihls =>
    intro rs
    cases rs with
    | nil => exact (Costs.pure ()).mono (Nat.zero_le _) (Nat.zero_le _)
    | cons r rs =>
      rw [equateAll, Term.nodesOf, Term.nodesOf]
      refine ((ih l (List.mem_cons_self ..) r).bind fun _ =>
        ihls (fun u hu => ih u (List.mem_cons_of_mem _ hu)) rs).mono ?_ ?_ <;> omega

/-- **So does an equation.** -/
theorem costs_equate (l : Term) : ∀ r : Term,
    Costs (equate rule mode l r) (l.nodes + r.nodes) (l.nodes + r.nodes) := by
  -- only constructors on both sides lead to smaller equations
  have ways {l r : Term} (apart : ∀ f as g bs, l = .ctor f as → r = .ctor g bs →
        Costs (equateAll rule mode as bs) (l.nodes + r.nodes) (l.nodes + r.nodes)) :
      Costs (equate rule mode l r) (l.nodes + r.nodes) (l.nodes + r.nodes) := by
    have refused (x : Rejection) :
        Costs (throw x : Compile Unit) (l.nodes + r.nodes) (l.nodes + r.nodes) :=
      (Costs.throw x).mono (Nat.zero_le _) (Nat.zero_le _)
    have pos := l.nodes_pos
    unfold equate
    refine .after (.current l) fun l' => .after (.current r) fun r' =>
      .after (.isBound l') fun bl => .after (.isBound r') fun br => ?_
    cases bl <;> cases br
    · dsimp only
      split
      · exact .ite (apart _ _ _ _ rfl rfl) (refused _)
      · exact refused _
    · exact (costs_bindPattern l _ _).mono (by omega) (by omega)
    · exact (costs_bindPattern r _ _).mono (by omega) (by omega)
    · exact (Costs.emit _).mono (by omega) (by omega)
  induction l with
  | ctor f as ih =>
    intro r
    refine ways ?_
    rintro _ _ g bs ⟨⟩ rfl
    refine (costs_equateAll ih bs).mono ?_ ?_ <;>
      · rw [Term.nodes, Term.nodes]
        omega
  | var | lit | call =>
    intro r
    refine ways ?_
    rintro _ _ _ _ ⟨⟩

theorem costs_distinguish (l r : Term) : Costs (distinguish rule l r) 1 0 := by
  unfold distinguish
  refine .after (.current l) fun l' => .after (.current r) fun r' =>
    .after (.isBound l') fun _ => .after (.isBound r') fun _ => .ite (.emit _) ?_
  exact (Costs.throw _).mono (Nat.zero_le _) (Nat.zero_le _)

/-- **An atom pays** with the nodes of its arguments, and has its goal for free. -/
theorem costs_search (delta : Bool) (a : Atom) :
    Costs (search rule mode delta a) (Term.nodesOf a.args + 1) (Term.nodesOf a.args) := by
  intro d
  have same : List.Forall₂ d.ReadsAs a.args a.args := List.forall₂_same.2 fun _ _ => rfl
  obtain ⟨args, owed, _, hargs, _, owes⟩ := exists_arguments_owes rule [] same
  have terms := Term.nodesOf_le_of_sublist owes.terms
  have few := Term.length_le_nodesOf (owed.map Prod.snd)
  rw [List.length_map] at few
  have invented : d.Expands 0 owed.length { d with next := d.next + owed.length } := .withNext d _
  have refused : d.Expands (Term.nodesOf a.args + 1) (Term.nodesOf a.args) d :=
    (Expands.refl d).mono (Nat.zero_le _) (Nat.zero_le _)
  rw [search_eq hargs]
  split
  · exact refused
  · split
    · exact refused
    · split
      · exact invented.mono (Nat.zero_le _) (Nat.le_trans few terms)
      · have owing : Costs (equateBinders rule mode _ (owed.map Prod.snd)) _ _ :=
          costs_equateBinders (fun t _ => costs_bindPattern t) (owed.map Prod.fst)
        refine ((invented.trans (.emitted ..)).trans (owing _)).mono ?_ ?_
        · omega
        · rw [List.length_map]
          omega

/-- **What a literal costs**: a step and an invented variable for each node that it writes, and one
more at most. -/
theorem costs_literal (delta : Bool) (l : Literal) :
    Costs (literal rule mode delta l) (l.nodes + 1) (l.nodes + 1) := by
  cases l with
  | atom a => exact (costs_search delta a).mono (Nat.le_refl _) (Nat.le_succ _)
  | unify l r negated =>
    cases negated with
    | false => exact (costs_equate l r).mono (Nat.le_succ _) (Nat.le_succ _)
    | true => exact (costs_distinguish l r).mono (Nat.succ_le_succ (Nat.zero_le _)) (Nat.zero_le _)

theorem costs_literals (ls : List (Literal × Bool)) :
    Costs (ls.forM fun e => literal rule mode e.2 e.1) (ls.map fun e => e.1.nodes + 1).sum
      (ls.map fun e => e.1.nodes + 1).sum := by
  induction ls with
  | nil => exact .pure ()
  | cons e ls ih => exact .bind (costs_literal e.2 e.1) fun _ => ih

end Compile

/-! ## The size of a clause -/

namespace Rule

variable {mode : Unification} {delta : Option Nat} {rule : Rule} {next : Nat}

/-- A clause has as many steps, and as many invented variables, as its body writes literals and
nodes, or fewer. -/
theorem size_of_compile {c : Clause} {n : Nat} (ok : rule.compile mode delta next = .ok c n) :
    c.body.length ≤ rule.bodyNodes ∧ n ≤ next + rule.bodyNodes := by
  obtain ⟨d, clause, rfl⟩ := compile_ok_iff.1 ok
  obtain ⟨_, body, rfl, _⟩ := Compile.clause_ok clause
  have cost := @Compile.costs_literals rule mode (rule.marked delta) { next }
  rw [body, sum_marked] at cost
  obtain ⟨⟨new, steps, length⟩, _, bound⟩ := cost
  have all : d.steps = new := steps
  exact ⟨all ▸ length, bound⟩

/-- **Compilation terminates, and is linear.**  From a queue it takes at most one turn for each
literal of the body and for each node that these write, and the outcome is that of `compile`.  The
turns that one literal leads to, whatever they put in place, add no more steps and no more invented
variables than the literal writes nodes, and one more; so the clause is linear in the body. -/
theorem compile_linear (below : ∀ v ∈ rule.occurrences, v.number < next) :
    rule.compileWithin rule.bodyNodes mode delta next = some (rule.compile mode delta next) ∧
    (∀ pre e post turns d, rule.marked delta = pre ++ e :: post →
      Compile.drain rule mode turns pre { next } = some (.ok () d) →
      ∃ result, Compile.drain rule mode (e.1.nodes + 1) [e] d = some result ∧
        d.Expands (e.1.nodes + 1) (e.1.nodes + 1) (Compile.draftOf result)) ∧
    ∀ c n, rule.compile mode delta next = .ok c n →
      c.body.length ≤ rule.bodyNodes ∧ n ≤ next + rule.bodyNodes := by
  refine ⟨compileWithin_eq below, fun pre e post turns d split drained => ?_,
    fun c n ok => size_of_compile ok⟩
  have before : Compile.Drains rule mode next pre _ _ { next } := drains_marked below split
  obtain ⟨settled, _⟩ := before.settled (before.eq_of_drain drained)
  have number : ∀ v ∈ e.1.occurrences, v.number < next := fun v hv => by
    refine below v (List.mem_append_right _ (List.mem_flatMap.2 ⟨e.1, ?_, hv⟩))
    rw [← map_fst_marked rule delta, split]
    exact List.mem_map_of_mem (List.mem_append_right _ (List.mem_cons_self ..))
  exact ⟨_, (Compile.drains_literal e settled number).drain_eq (Nat.le_refl _),
    Compile.costs_literal e.2 e.1 d⟩

end Rule

namespace Doubled

/-- The variable `x`. -/
def x : Term := .var ⟨"x", 0⟩

/-- The variable `y`. -/
def y : Term := .var ⟨"y", 0⟩

/-- The variable `z`. -/
def z : Term := .var ⟨"z", 0⟩

/-- The variable `w`. -/
def w : Term := .var ⟨"w", 0⟩

/-- `q(w) :- r(x), y = c(x, x), z = c(y, y), p(d(z, w)).` -/
def rule : Rule :=
  { head := { relation := ⟨"q", 1, .bottomUp⟩, args := [w] }
    body := [.atom { relation := ⟨"r", 1, .extensional⟩, args := [x] },
      .unify y (.ctor "c" [x, x]) false, .unify z (.ctor "c" [y, y]) false,
      .atom { relation := ⟨"p", 1, .extensional⟩, args := [.ctor "d" [z, w]] }] }

/-- What `z` stands for when its turn comes. -/
def grown : Term := .ctor "c" [.ctor "c" [x, x], .ctor "c" [x, x]]

/-- The last atom writes three nodes, and one of its steps alone compares seven. -/
theorem compiled_within : ∃ c n, rule.compileWithin rule.bodyNodes .inline none 1 =
      some (.ok c n) ∧ c.body.length ≤ rule.bodyNodes ∧ n ≤ 1 + rule.bodyNodes ∧
      .check (.var (.fresh 2)) grown false ∈ c.body := by
  obtain ⟨c, n, ok, compared⟩ : ∃ c n, rule.compile .inline none 1 = .ok c n ∧
      .check (.var (.fresh 2)) grown false ∈ c.body := by
    have holds : (match rule.compile .inline none 1 with
      | .ok c _ => decide (.check (.var (.fresh 2)) grown false ∈ c.body)
      | .error .. => false) = true := by decide +kernel
    split at holds
    · next c n ok => exact ⟨c, n, ok, of_decide_eq_true holds⟩
    · cases holds
  obtain ⟨whole, _, bound⟩ := @Rule.compile_linear .inline none rule 1 (by decide)
  rw [ok] at whole
  exact ⟨c, n, whole, (bound c n ok).1, (bound c n ok).2, compared⟩

end Doubled

end Datalog
