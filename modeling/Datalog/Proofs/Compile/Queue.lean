import Datalog.Proofs.Compile.Drains

/-!
# Proofs/Compile/Queue — the queue runs empty

Compiling from a queue ends as compiling along the written terms does, and takes at most one turn
for each literal and for each node that it writes (`Compile.drains_literals`).
-/

namespace Datalog

namespace Compile

open Draft

variable {rule : Rule} {mode : Unification} {old : Nat} {d d' : Draft}

/-! ## Literals -/

/-- What an atom comes to, by what its arguments become. -/
theorem search_eq {delta : Bool} {a : Atom} {args : List Arg} {owed : List (Var × Term)}
    (hargs : arguments rule [] a.args d = .ok (args, owed) d') : search rule mode delta a d =
    if ¬a.HasArity then .error (.arity { a with args := a.args.map (·.substitute d.inlined) }) d
    else if a.relation.kind = .topDown then .error (.topDown rule a.relation) d
    else if a.negated && args.any Arg.isFree then
      .error (.unsafeNegation rule { a with args := a.args.map (·.substitute d.inlined) }) d'
    else equateBinders rule mode (owed.map Prod.fst) (owed.map Prod.snd)
      (d'.emitted (.lookup { relation := a.relation, args, negated := a.negated, delta })) := by
  rw [search, Outcome.bind_of_ok (mapM_current_eq a.args)]
  dsimp only
  split
  · split
    · rfl
    · rw [Outcome.bind_of_ok hargs]
      dsimp only
      split <;> rfl
  · rfl

theorem turnAtom_eq {delta : Bool} {a : Atom} {args : List Arg} {owed : List (Var × Term)}
    (hargs : arguments rule [] a.args d = .ok (args, owed) d') : turnAtom rule delta a d =
    if ¬a.HasArity then .error (.arity a) d
    else if a.relation.kind = .topDown then .error (.topDown rule a.relation) d
    else if a.negated && args.any Arg.isFree then .error (.unsafeNegation rule a) d'
    else .ok (equations (owed.map fun e => .var e.1) (owed.map Prod.snd))
      (d'.emitted (.lookup { relation := a.relation, args, negated := a.negated, delta })) := by
  rw [turnAtom]
  split
  · dsimp only
    split
    · rfl
    · rw [Outcome.bind_of_ok hargs]
      dsimp only
      split <;> rfl
  · rfl

/-- **A goal binds the variables of what it owes.** -/
theorem Owes.bound {ts : List Term} {a : Atom} {args : List Arg} {owed owed' : List (Var × Term)}
    {delta : Bool} (owes : Owes d ts args owed owed')
    (safe : (a.negated && args.any Arg.isFree) ≠ true) :
    owed.map Prod.fst ⊆ (d'.emitted (.lookup
      { relation := a.relation, args, negated := a.negated, delta })).bound := by
  intro y hy
  have free := (owes.free y hy).1
  have positive : a.negated = false := by
    rw [Bool.eq_false_iff]
    intro negated
    refine safe ?_
    rw [negated, Bool.true_and]
    exact List.any_eq_true.2 ⟨_, free, rfl⟩
  refine mem_bound_emitted.2 (.inr ⟨by rw [Step.binds, positive]; rfl, ?_⟩)
  refine List.mem_eraseDups.2 (List.mem_flatMap.2 ⟨.var y, ?_, List.mem_singleton.2 rfl⟩)
  exact List.mem_map.2 ⟨_, free, rfl⟩

/-- No variable of a goal stands for anything. -/
theorem Owes.unused {ts : List Term} {g : Goal} {owed owed' : List (Var × Term)}
    (owes : Owes d ts g.args owed owed') (settled : d.Settled old) :
    ∀ v ∈ (Step.lookup g).vars, d.inlined.get? v = none := by
  intro v hv
  obtain ⟨_, hterm, hv⟩ := List.mem_flatMap.1 (List.mem_eraseDups.1 hv)
  obtain ⟨arg, harg, rfl⟩ := List.mem_map.1 hterm
  rcases owes.vars arg harg v hv with new | ⟨t, ht⟩
  · exact settled.inlined_of_new new
  · exact settled.inlined_of_mem ht

theorem drains_search {delta : Bool} {a : Atom} (settled : d.Settled old)
    (number : ∀ v ∈ a.occurrences, v.number < old) :
    Drains rule mode old [(.atom a, delta)] (search rule mode delta a)
      (Term.nodesOf a.args + 1) d := by
  let a' : Atom := { a with args := a.args.map (·.substitute d.inlined) }
  have arity : a'.HasArity ↔ a.HasArity := by
    rw [Atom.HasArity, Atom.HasArity, List.length_map]
  obtain ⟨args, owed, owed', hargs, hargs', owes⟩ :=
    exists_arguments_owes rule [] (settled.forall₂_reads a.args)
  have taken : turn rule mode (.atom a, delta) d = turnAtom rule delta a' d :=
    Outcome.bind_of_ok (mapM_current_eq a.args)
  have whole := @search_eq rule mode _ _ delta a _ _ hargs
  rw [turnAtom_eq hargs'] at taken
  simp only [arity] at taken
  by_cases ha : a.HasArity
  swap
  · rw [if_pos ha] at taken whole
    exact .of_error taken whole
  rw [if_neg (not_not.2 ha)] at taken whole
  by_cases top : a.relation.kind = .topDown
  · rw [if_pos top] at taken whole
    exact .of_error taken whole
  rw [if_neg top] at taken whole
  by_cases safe : (a.negated && args.any Arg.isFree) = true
  · rw [if_pos safe] at taken whole
    exact .of_error taken whole
  rw [if_neg safe] at taken whole
  let g : Goal := { relation := a.relation, args, negated := a.negated, delta }
  let d₁ := ({ d with next := d.next + owed.length } : Draft).emitted (.lookup g)
  have before : d.Before d₁ := (Before.withNext d _).trans (.emitted ..)
  have unused : ∀ v ∈ (Step.lookup g).vars, d.inlined.get? v = none := owes.unused settled
  have settled₁ : d₁.Settled old := (settled.withNext (Nat.le_add_right ..)).emit unused
  have queued : owed'.map (fun e => Term.var e.1) = (owed.map Prod.fst).map .var := by
    rw [← owes.binders, List.map_map]
    rfl
  rw [queued] at taken
  refine (Drains.of_turn taken before whole (drains_equateBinders (fun t _ => drainsPattern t)
    settled₁ (fun v hv => ?_) (ReadsAs.forall₂_later owes.reads settled settled₁ before)
    (owes.bound safe))).mono (Nat.succ_le_succ (Term.nodesOf_le_of_sublist owes.terms))
  obtain ⟨t, ht, hv⟩ := Term.mem_occurrencesOf.1 hv
  exact number v (List.mem_flatMap.2 ⟨t, owes.terms.subset ht, hv⟩)

/-- **A literal is compiled alike from the queue**, in as many turns as it writes nodes and one
more. -/
theorem drains_literal (e : Literal × Bool) (settled : d.Settled old)
    (number : ∀ v ∈ e.1.occurrences, v.number < old) :
    Drains rule mode old [e] (literal rule mode e.2 e.1) (e.1.nodes + 1) d := by
  obtain ⟨l, mark⟩ := e
  cases l with
  | atom a => exact drains_search settled number
  | unify l r negated =>
    cases negated with
    | false =>
      exact (drainsEquation l settled (fun v hv => number v (List.mem_append_left _ hv))
        (fun v hv => number v (List.mem_append_right _ hv)) rfl rfl).mono (Nat.le_succ _)
    | true => exact (drains_distinguish settled).mono (Nat.succ_le_succ (Nat.zero_le _))

/-- **So are the literals of a body.** -/
theorem drains_literals {ls : List (Literal × Bool)} : ∀ {d : Draft}, d.Settled old →
    (∀ e ∈ ls, ∀ v ∈ e.1.occurrences, v.number < old) →
    Drains rule mode old ls (ls.forM fun e => literal rule mode e.2 e.1)
      (ls.map fun e => e.1.nodes + 1).sum d := by
  induction ls with
  | nil => exact fun settled _ => .nil settled
  | cons e ls ih =>
    intro d settled number
    exact (drains_literal e settled (number e (List.mem_cons_self ..))).append
      fun d' settled' _ => ih settled' fun e he => number e (List.mem_cons_of_mem _ he)

@[simp] theorem drain_nil (turns : Nat) : drain rule mode turns [] d = some (.ok () d) := by
  cases turns <;> rfl

/-- More turns change nothing. -/
theorem drain_mono {turns : Nat} {result : EStateM.Result Rejection Draft Unit} :
    ∀ {queue : List (Literal × Bool)} {d : Draft}, drain rule mode turns queue d = some result →
      ∀ more, drain rule mode (turns + more) queue d = some result := by
  induction turns with
  | zero =>
    intro queue d h more
    cases queue with
    | nil => rwa [drain_nil] at h ⊢
    | cons e queue => cases h
  | succ turns ih =>
    intro queue d h more
    cases queue with
    | nil => rwa [drain_nil] at h ⊢
    | cons e queue =>
      rw [Nat.add_right_comm]
      rw [drain] at h ⊢
      cases taken : turn rule mode e d with
      | ok owed d' =>
        rw [taken] at h
        exact ih h more
      | error r d' =>
        rw [taken] at h
        exact h

namespace Drains

variable {queue : List (Literal × Bool)} {x : Compile Unit} {n turns : Nat}

theorem drain_eq (h : Drains rule mode old queue x n d) (hn : n ≤ turns) :
    drain rule mode turns queue d = some (x d) := by
  obtain ⟨k, hk, all⟩ := h.turns
  have whole := all (turns - k) []
  rw [Nat.sub_add_cancel (Nat.le_trans hk hn), List.append_nil] at whole
  rw [whole]
  cases x d with
  | ok u d' => exact drain_nil _
  | error r d' => rfl

/-- **Whatever comes of the queue** is what comes of the action. -/
theorem eq_of_drain (h : Drains rule mode old queue x n d)
    {result : EStateM.Result Rejection Draft Unit}
    (drained : drain rule mode turns queue d = some result) : x d = result := by
  have whole := drain_mono drained n
  rw [h.drain_eq (Nat.le_add_left ..)] at whole
  exact Option.some.inj whole

end Drains

end Compile

/-! ## Rules -/

namespace Rule

variable {mode : Unification} {delta : Option Nat} {rule : Rule} {next : Nat}

/-- The number of literals in the body of a rule, and of the nodes that they write. -/
def bodyNodes (rule : Rule) : Nat := (rule.body.map fun l => l.nodes + 1).sum

/-- **The clause of a rule, compiled from a queue** in so many turns at most. -/
def compileWithin (turns : Nat) (mode : Unification) (delta : Option Nat) (rule : Rule)
    (next : Nat) : Option (EStateM.Result Rejection Nat Clause) :=
  match rule.headRejection with
  | some e => some (.error e next)
  | none =>
    match Compile.drain rule mode turns (rule.marked delta) { next } with
    | none => none
    | some (.error e d) => some (.error e d.next)
    | some (.ok _ d) =>
      match Compile.head rule d with
      | .ok head d' => some (.ok ⟨head, d'.steps⟩ d'.next)
      | .error e d' => some (.error e d'.next)

theorem sum_marked (rule : Rule) (delta : Option Nat) :
    ((rule.marked delta).map fun e => e.1.nodes + 1).sum = rule.bodyNodes := by
  rw [bodyNodes, ← map_fst_marked rule delta, List.map_map]
  rfl

/-- The literals of a rule are compiled alike from the queue. -/
theorem drains_marked (below : ∀ v ∈ rule.occurrences, v.number < next)
    {pre post : List (Literal × Bool)} (h : rule.marked delta = pre ++ post) :
    Compile.Drains rule mode next pre
      (pre.forM fun e => Compile.literal rule mode e.2 e.1)
      (pre.map fun e => e.1.nodes + 1).sum { next } := by
  refine Compile.drains_literals (.start (Nat.le_refl _)) fun e he v hv => below v ?_
  refine List.mem_append_right _ (List.mem_flatMap.2 ⟨e.1, ?_, hv⟩)
  rw [← map_fst_marked rule delta, h]
  exact List.mem_map_of_mem (List.mem_append_left _ he)

/-- **The queue runs empty**, and the outcome is that of compiling along the written terms. -/
theorem compileWithin_eq (below : ∀ v ∈ rule.occurrences, v.number < next) :
    rule.compileWithin rule.bodyNodes mode delta next = some (rule.compile mode delta next) := by
  have drained : Compile.drain rule mode rule.bodyNodes (rule.marked delta) { next } = some _ :=
    (drains_marked below (List.append_nil _).symm).drain_eq (Nat.le_of_eq (sum_marked rule delta))
  rw [compileWithin, compile, clause_eq]
  cases rule.headRejection with
  | some e => rfl
  | none =>
    dsimp only
    rw [drained]
    cases body : ((rule.marked delta).forM fun e => Compile.literal rule mode e.2 e.1) { next } with
    | error e d => rw [Outcome.bind_of_error body]
    | ok u d =>
      rw [Outcome.bind_of_ok body]
      dsimp only
      cases hhead : Compile.head rule d with
      | error e d' => rw [Outcome.bind_of_error hhead]
      | ok head d' =>
        rw [Outcome.bind_of_ok hhead]
        rfl

end Rule

end Datalog
