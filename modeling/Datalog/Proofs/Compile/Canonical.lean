import Datalog.Proofs.Compile.Orderly

/-!
# Proofs/Compile/Canonical — compiled clauses are canonical

The steps that compilation adds for a literal bind or ignore each variable of the rule at most as
often as the literal mentions it (`Draft.Spends`); adding this up over the body, a variable that the
rule mentions once cannot be ignored and bound, or ignored twice.  The same account lists the goals
of the clause: one for each atom, in the order of the rule.
-/

namespace Datalog

/-! ## What literals spend -/

/-- The atom of a literal, with its mark. -/
def Literal.asked : Literal × Bool → Option (Atom × Bool)
  | (.atom a, delta) => some (a, delta)
  | (.unify .., _) => none

/-- **The goal asks for the marked atom**; what it ignores is mentioned once, and if it is negated
it has no free arguments. -/
structure Goal.Serves (rule : Rule) (e : Atom × Bool) (g : Goal) : Prop
    extends g.Asks e.2 e.1 where
  tests : g.IsTest
  single : ∀ v ∈ g.args.flatMap Arg.ignores, Compile.Single rule v

/-- **From `d` to `d'` compilation spends the variables** `vs` on new steps, with a goal for each of
the atoms.  `old` is above the numbers of the rule's variables. -/
structure Draft.Spends (rule : Rule) (old : Nat) (vs : List Var) (as : List (Atom × Bool))
    (d d' : Draft) (new : List Step) : Prop where
  steps : d'.steps = d.steps ++ new
  next : d.next ≤ d'.next
  introduces : ∀ v, v.number < old → (new.flatMap Step.introduces).count v ≤ vs.count v
  goals : List.Forall₂ (Goal.Serves rule) as (new.filterMap Step.goal?)

namespace Draft.Spends

variable {rule : Rule} {old : Nat} {vs ws : List Var} {as bs : List (Atom × Bool)}
  {d d' d'' : Draft} {new new' : List Step}

theorem refl (d : Draft) : Spends rule old [] [] d d [] :=
  ⟨(List.append_nil _).symm, Nat.le_refl _, fun _ _ => Nat.le_refl _, .nil⟩

theorem trans (h : Spends rule old vs as d d' new) (h' : Spends rule old ws bs d' d'' new') :
    Spends rule old (vs ++ ws) (as ++ bs) d d'' (new ++ new') where
  steps := by rw [h'.steps, h.steps, List.append_assoc]
  next := Nat.le_trans h.next h'.next
  introduces v hv := by
    rw [List.flatMap_append, List.count_append, List.count_append]
    exact Nat.add_le_add (h.introduces v hv) (h'.introduces v hv)
  goals := by
    rw [List.filterMap_append]
    exact List.rel_append h.goals h'.goals

theorem mono (h : Spends rule old vs as d d' new) (hc : ∀ v, vs.count v ≤ ws.count v) :
    Spends rule old ws as d d' new :=
  ⟨h.steps, h.next, fun v hv => Nat.le_trans (h.introduces v hv) (hc v), h.goals⟩

end Draft.Spends

namespace Compile

open Draft

variable {rule : Rule} {mode : Unification} {old : Nat} {α β : Type}

/-- **The action spends the variables**, and what it returns satisfies the condition. -/
def Spending (rule : Rule) (old : Nat) (x : Compile α) (vs : List Var) (Q : α → Prop) : Prop :=
  ∀ d, old ≤ d.next → ∀ a d', x d = .ok a d' → Q a ∧ ∃ new, Spends rule old vs [] d d' new

namespace Spending

variable {x : Compile α} {f : α → Compile β} {vs ws : List Var} {Q : α → Prop} {R : β → Prop}

theorem bind (hx : Spending rule old x vs Q) (hf : ∀ a, Q a → Spending rule old (f a) ws R) :
    Spending rule old (x >>= f) (vs ++ ws) R := by
  intro d hd b d'' ok
  obtain ⟨a, d', first, ok⟩ := Outcome.bind_ok_iff.1 ok
  obtain ⟨ha, new, spends⟩ := hx d hd a d' first
  obtain ⟨hb, new', spends'⟩ := hf a ha d' (Nat.le_trans hd spends.next) b d'' ok
  exact ⟨hb, _, spends.trans spends'⟩

/-- What spends nothing may come first. -/
theorem after (hx : Spending rule old x [] Q) (hf : ∀ a, Q a → Spending rule old (f a) ws R) :
    Spending rule old (x >>= f) ws R :=
  hx.bind hf

theorem mono (hx : Spending rule old x vs Q) (hc : ∀ v, vs.count v ≤ ws.count v) :
    Spending rule old x ws Q := by
  intro d hd a d' ok
  obtain ⟨ha, new, spends⟩ := hx d hd a d' ok
  exact ⟨ha, new, spends.mono hc⟩

theorem pure {a : α} (ha : Q a) : Spending rule old (Pure.pure a) [] Q := by
  intro d _ _ d' ok
  obtain ⟨rfl, rfl⟩ := Outcome.pure_ok_iff.1 ok
  exact ⟨ha, [], .refl d⟩

theorem throw {r : Rejection} : Spending rule old (throw r : Compile α) vs Q :=
  fun _ _ _ _ ok => (Outcome.throw_ok_iff.1 ok).elim

theorem ite {p : Prop} [Decidable p] {y : Compile α} (hx : Spending rule old x vs Q)
    (hy : Spending rule old y vs Q) : Spending rule old (if p then x else y) vs Q := by
  split
  · exact hx
  · exact hy

theorem current {t : Term} : Spending rule old (current t) [] fun _ => True := by
  intro d _ _ d' ok
  obtain ⟨rfl, rfl⟩ := current_ok_iff.1 ok
  exact ⟨trivial, [], .refl d⟩

theorem isBound {t : Term} : Spending rule old (isBound t) [] fun _ => True := by
  intro d _ _ d' ok
  obtain ⟨rfl, rfl⟩ := isBound_ok_iff.1 ok
  exact ⟨trivial, [], .refl d⟩

theorem inventAll {ts : List Term} :
    Spending rule old (inventAll ts) [] fun ys => ∀ y ∈ ys, old ≤ y.number := by
  intro d hd ys d' ok
  obtain ⟨rfl, rfl⟩ := inventAll_ok_iff.1 ok
  refine ⟨fun y hy => Nat.le_trans hd (Var.number_of_mem_freshes hy).1, [], ?_⟩
  exact ⟨(List.append_nil _).symm, Nat.le_add_right .., fun _ _ => Nat.le_refl _, .nil⟩

theorem inline {v : Var} {t : Term} : Spending rule old (inline v t) [] fun _ => True := by
  intro d _ _ d' ok
  obtain rfl := inline_ok_iff.1 ok
  exact ⟨trivial, [], (List.append_nil _).symm, Nat.le_refl _, fun _ _ => Nat.le_refl _, .nil⟩

/-- A step that is not a lookup spends what it binds. -/
theorem emit {step : Step} (hs : step.goal? = none)
    (hv : ∀ v, v.number < old → step.introduces.count v ≤ vs.count v) :
    Spending rule old (emit step) vs fun _ => True := by
  intro d _ _ d' ok
  obtain rfl := emit_ok_iff.1 ok
  refine ⟨trivial, [step], rfl, Nat.le_refl _, fun v h => ?_, ?_⟩
  · rw [List.flatMap_singleton]
    exact hv v h
  · rw [List.filterMap_cons_none hs]
    exact .nil

theorem check {l r : Term} {negated : Bool} :
    Spending rule old (Compile.emit (.check l r negated)) [] fun _ => True :=
  .emit rfl fun _ _ => Nat.le_refl _

end Spending

theorem spending_equateBinders {ts : List Term}
    (ih : ∀ t ∈ ts, ∀ {l : Literal} {value : Term},
      Spending rule old (bindPattern rule mode l value t) t.occurrences fun _ => True) :
    ∀ {ys : List Var}, Spending rule old (equateBinders rule mode ys ts)
      (Term.occurrencesOf ts) fun _ => True := by
  induction ts with
  | nil =>
    intro ys
    cases ys <;> exact .pure trivial
  | cons t ts ihts =>
    intro ys
    cases ys with
    | nil => exact Spending.mono (.pure trivial) fun _ => Nat.zero_le _
    | cons y ys =>
      have rest : Spending rule old (equateBinders rule mode ys ts) (Term.occurrencesOf ts)
          fun _ => True :=
        ihts fun u hu => ih u (List.mem_cons_of_mem _ hu)
      rw [equateBinders]
      refine .after .current fun t' _ => .after .isBound fun _ _ => .ite ?_ ?_
      · exact (Spending.bind .check fun _ _ => rest).mono fun v =>
          (List.sublist_append_right t.occurrences _).count_le v
      · exact .bind (ih t (List.mem_cons_self ..)) fun _ _ => rest

/-- **A pattern spends its variables**; what it takes constructors apart into is invented. -/
theorem spending_bindPattern (t : Term) : ∀ {l : Literal} {value : Term},
    Spending rule old (bindPattern rule mode l value t) t.occurrences fun _ => True := by
  induction t with
  | var v =>
    intro l value
    rw [bindPattern]
    exact .ite (Spending.inline.mono fun _ => Nat.zero_le _) (.emit rfl fun _ _ => Nat.le_refl _)
  | ctor f args ih =>
    intro l value
    rw [bindPattern]
    refine .after .inventAll fun ys hys => .after (.emit rfl fun v hv => ?_)
      fun _ _ => spending_equateBinders ih
    have unused : v ∉ ys ++ [] := by
      rw [List.append_nil]
      exact fun hmem => Nat.not_le_of_lt hv (hys v hmem)
    exact Nat.le_of_eq (List.count_eq_zero.2 unused)
  | lit | call =>
    intro l value
    rw [bindPattern]
    exact .throw

theorem spending_equateAll {ls : List Term}
    (ih : ∀ l ∈ ls, ∀ {r : Term},
      Spending rule old (equate rule mode l r) (l.occurrences ++ r.occurrences) fun _ => True) :
    ∀ {rs : List Term}, Spending rule old (equateAll rule mode ls rs)
      (Term.occurrencesOf ls ++ Term.occurrencesOf rs) fun _ => True := by
  induction ls with
  | nil =>
    intro rs
    cases rs <;> exact Spending.mono (.pure trivial) fun _ => Nat.zero_le _
  | cons l ls ihls =>
    intro rs
    cases rs with
    | nil => exact Spending.mono (.pure trivial) fun _ => Nat.zero_le _
    | cons r rs =>
      rw [equateAll]
      refine (Spending.bind (ih l (List.mem_cons_self ..)) fun _ _ =>
        ihls fun u hu => ih u (List.mem_cons_of_mem _ hu)).mono fun v => Nat.le_of_eq ?_
      simp only [Term.occurrencesOf, List.count_append]
      omega

/-- **So does an equation.** -/
theorem spending_equate (l : Term) : ∀ {r : Term},
    Spending rule old (equate rule mode l r) (l.occurrences ++ r.occurrences) fun _ => True := by
  -- only constructors on both sides lead to smaller equations
  have ways {l r : Term} (apart : ∀ f as g bs, l = .ctor f as → r = .ctor g bs →
        Spending rule old (equateAll rule mode as bs) (l.occurrences ++ r.occurrences)
          fun _ => True) :
      Spending rule old (equate rule mode l r) (l.occurrences ++ r.occurrences) fun _ => True := by
    unfold equate
    refine .after .current fun l' _ => .after .current fun r' _ =>
      .after .isBound fun bl _ => .after .isBound fun br _ => ?_
    cases bl <;> cases br
    · dsimp only
      split
      · exact .ite (apart _ _ _ _ rfl rfl) .throw
      · exact .throw
    · exact (spending_bindPattern l).mono fun v => (List.sublist_append_left ..).count_le v
    · exact (spending_bindPattern r).mono fun v => (List.sublist_append_right ..).count_le v
    · exact Spending.check.mono fun _ => Nat.zero_le _
  induction l with
  | ctor f as ih =>
    intro r
    refine ways ?_
    rintro _ _ g bs ⟨⟩ rfl
    exact spending_equateAll ih
  | var | lit | call =>
    intro r
    exact ways nofun

theorem spending_distinguish {l r : Term} :
    Spending rule old (distinguish rule l r) (l.occurrences ++ r.occurrences) fun _ => True := by
  unfold distinguish
  refine .after .current fun l' _ => .after .current fun r' _ =>
    .after .isBound fun _ _ => .after .isBound fun _ _ => .ite ?_ .throw
  exact Spending.check.mono fun _ => Nat.zero_le _

namespace Arranged

variable {single : Var → Prop} {seen met : List Var} {σ : Bindings} {n : Nat}
  {ts direct : List Term} {args : List Arg} {owed : List (Var × Term)}

/-- **A goal spends the terms that keep their places.** -/
theorem count_introduces (h : Arranged single seen σ met n ts args direct owed) {v : Var}
    (hv : v.number < n) : (args.flatMap Arg.writes).count v + (args.flatMap Arg.ignores).count v ≤
      (Term.occurrencesOf direct).count v := by
  induction h with
  | nil => exact Nat.le_refl _
  | bound _ _ _ ih =>
    refine Nat.le_trans (ih hv) ?_
    rw [Term.occurrencesOf, List.count_append]
    exact Nat.le_add_left ..
  | free _ _ _ _ ih | ignored _ _ _ ih =>
    have := ih hv
    simp only [List.flatMap_cons, Arg.writes, Arg.ignores, Term.occurrencesOf, Term.occurrences,
      List.count_append, List.count_nil]
    omega
  | @invented _ n _ _ _ _ _ _ _ _ ih =>
    have invented : ¬Var.fresh n = v := by
      rintro rfl
      exact Nat.lt_irrefl _ hv
    simp only [List.flatMap_cons, Arg.writes, Arg.ignores, List.count_append, List.count_nil,
      List.count_cons_of_ne invented, Nat.zero_add]
    exact ih (Nat.lt_succ_of_lt hv)

theorem single_of_ignores (h : Arranged single seen σ met n ts args direct owed) {v : Var}
    (hv : v ∈ args.flatMap Arg.ignores) : single v := by
  induction h with
  | nil => cases hv
  | bound _ _ _ ih | free _ _ _ _ ih | invented _ _ _ ih => exact ih hv
  | ignored _ hs _ ih =>
    rcases List.mem_cons.1 hv with rfl | hv
    · exact hs
    · exact ih hv

end Arranged

variable {seen : List Var} {d d' : Draft}

/-- **An atom spends its variables** on its goal and on the equations owed. -/
theorem search_spends {delta : Bool} {a : Atom}
    (ready : d.Ready (Single rule) old seen a.occurrences)
    (ok : search rule mode delta a d = .ok () d') :
    ∃ new, Spends rule old a.occurrences [(a, delta)] d d' new := by
  obtain ⟨_, args, owed, _, hargs, hneg, ok⟩ := search_ok ok
  rw [Atom.occurrences, ← Term.occurrencesOf_eq_flatMap] at ready ⊢
  obtain ⟨direct, arranged, _, rfl⟩ := arguments_arranged ready
    (ready.once.of_count_le fun v => by
      rw [List.nil_append, List.count_append]
      omega) hargs
  have old_le : old ≤ d.next := ready.sound.old_le
  let g : Goal := { relation := a.relation, args, negated := a.negated, delta }
  have serves : g.Serves rule (a, delta) := by
    refine ⟨⟨rfl, rfl, rfl⟩, fun negated arg harg => ?_, fun v hv => arranged.single_of_ignores hv⟩
    have negated : a.negated = true := negated
    rw [negated, Bool.true_and] at hneg
    exact Bool.eq_false_iff.2 fun free => by
      rw [List.any_eq_true.2 ⟨arg, harg, free⟩] at hneg
      cases hneg
  have goal : Spends rule old (Term.occurrencesOf direct) [(a, delta)] d
      (({ d with next := d.next + owed.length } : Draft).emitted (.lookup g)) [.lookup g] := by
    refine ⟨rfl, Nat.le_add_right .., fun v hv => ?_, .cons serves .nil⟩
    refine Nat.le_trans ?_ (arranged.count_introduces (Nat.lt_of_lt_of_le hv old_le))
    rw [List.flatMap_singleton, Step.introduces, List.count_append, Step.writes, Step.ignores]
    split
    · exact Nat.add_le_add_right (Nat.zero_le _) _
    · exact Nat.le_refl _
  obtain ⟨_, new, owing⟩ := spending_equateBinders (fun t _ => spending_bindPattern t)
    _ (Nat.le_trans old_le goal.next) _ _ ok
  exact ⟨_, (goal.trans owing).mono fun v => Nat.le_of_eq (arranged.perm.symm.count_eq v)⟩

theorem literal_spends {e : Literal × Bool} (ready : d.Ready (Single rule) old seen e.1.occurrences)
    (ok : literal rule mode e.2 e.1 d = .ok () d') :
    ∃ new, Spends rule old e.1.occurrences (Literal.asked e).toList d d' new := by
  have old_le : old ≤ d.next := ready.sound.old_le
  obtain ⟨l, delta⟩ := e
  cases l with
  | atom a => exact search_spends ready ok
  | unify l r negated =>
    cases negated with
    | false => exact (spending_equate l d old_le _ _ ok).2
    | true => exact (spending_distinguish d old_le _ _ ok).2

/-- **A body spends its variables**, with a goal for each atom. -/
theorem literals_spend {ls : List (Literal × Bool)} : ∀ {seen : List Var} {d d' : Draft},
    d.Ready (Single rule) old seen (ls.flatMap fun e => e.1.occurrences) →
    (ls.forM fun e => literal rule mode e.2 e.1) d = .ok () d' →
    ∃ new, Spends rule old (ls.flatMap fun e => e.1.occurrences) (ls.filterMap Literal.asked)
      d d' new := by
  induction ls with
  | nil =>
    intro seen d d' _ ok
    obtain ⟨_, rfl⟩ := Outcome.pure_ok_iff.1 ok
    exact ⟨[], .refl d⟩
  | cons e ls ih =>
    intro seen d d' ready ok
    change (literal rule mode e.2 e.1 >>= fun _ => ls.forM _) d = _ at ok
    obtain ⟨⟨⟩, d₁, first, ok⟩ := Outcome.bind_ok_iff.1 ok
    rw [List.flatMap_cons] at ready ⊢
    obtain ⟨new, spends⟩ := literal_spends ready.left first
    obtain ⟨new', rest⟩ := ih (ready.right (literal_sound ready.left first)) ok
    have both := spends.trans rest
    refine ⟨new ++ new', ?_⟩
    rw [List.filterMap_cons]
    cases h : Literal.asked e <;> rw [h] at both <;> exact both

end Compile

/-! ## The clause of a rule -/

namespace Rule

variable {mode : Unification} {delta : Option Nat} {rule : Rule} {c : Clause} {next next' : Nat}

/-- **What a clause spends** is what its rule mentions, with a goal for each atom of the body. -/
theorem spends_of_clause {d : Draft} (below : ∀ v ∈ rule.occurrences, v.number < next)
    (ok : Compile.clause rule mode delta { next } = .ok c d) :
    Draft.Spends rule next (rule.body.flatMap Literal.occurrences)
      ((rule.marked delta).filterMap Literal.asked) { next } d c.body := by
  obtain ⟨_, body, rfl, _⟩ := Compile.clause_ok ok
  obtain ⟨new, spends⟩ := Compile.literals_spend (ready_marked below) body
  rw [flatMap_marked] at spends
  have all : new = d.steps := spends.steps.symm
  exact all ▸ spends

/-- **The goals of a clause** are its rule's atoms, in their order. -/
theorem goals_of_compile (below : ∀ v ∈ rule.occurrences, v.number < next)
    (ok : rule.compile mode delta next = .ok c next') :
    List.Forall₂ (Goal.Serves rule) ((rule.marked delta).filterMap Literal.asked)
      (c.body.filterMap Step.goal?) := by
  obtain ⟨d, ok⟩ := clause_of_compile ok
  exact (spends_of_clause below ok).goals

/-- A goal of a clause serves an atom of its rule. -/
theorem exists_serves (below : ∀ v ∈ rule.occurrences, v.number < next)
    (ok : rule.compile mode delta next = .ok c next') {g : Goal} (hg : .lookup g ∈ c.body) :
    ∃ e, g.Serves rule e := by
  obtain ⟨e, _, serves⟩ := Outcome.exists_of_forall₂ (goals_of_compile below ok).flip
    (List.mem_filterMap.2 ⟨_, hg, rfl⟩)
  exact ⟨e, serves⟩

/-- A variable that is ignored is mentioned once in the rule, so it is introduced once. -/
theorem introduces_ignored (below : ∀ v ∈ rule.occurrences, v.number < next)
    (ok : rule.compile mode delta next = .ok c next') {v : Var}
    (hv : v ∈ c.body.flatMap Step.ignores) : (c.body.flatMap Step.introduces).count v ≤ 1 := by
  obtain ⟨step, hstep, hv⟩ := List.mem_flatMap.1 hv
  cases step with
  | assign | check | destruct => cases hv
  | lookup g =>
    obtain ⟨e, serves⟩ := exists_serves below ok hstep
    have single : rule.occurrences.count v = 1 := by
      simpa [Compile.Single, isSingleton] using serves.single v hv
    have old : v.number < next := below v (List.count_pos_iff.1 (by omega))
    obtain ⟨d, clause⟩ := clause_of_compile ok
    calc (c.body.flatMap Step.introduces).count v
        ≤ (rule.body.flatMap Literal.occurrences).count v :=
          (spends_of_clause below clause).introduces v old
      _ ≤ rule.occurrences.count v := (List.sublist_append_right ..).count_le v
      _ = 1 := single

/-- **Compiled clauses are canonical.** -/
theorem canonical_of_compile (below : ∀ v ∈ rule.occurrences, v.number < next)
    (ok : rule.compile mode delta next = .ok c next') : c.Canonical := by
  refine (orderly_of_compile below ok).canonical_of_once (fun g hg => ?_) fun v hv => ?_
  · obtain ⟨e, serves⟩ := exists_serves below ok hg
    exact serves.tests
  · exact introduces_ignored below ok hv

end Rule

/-- A clause with all four kinds of steps, which ignores the variable that only the negated atom
mentions. -/
theorem Linked.canonical : ∃ clause next, pairing.compile .assign none 1 = .ok clause next ∧
    clause.body.flatMap Step.ignores = [⟨"w", 0⟩] ∧ clause.Canonical := by
  obtain ⟨clause, next, ok, ignored⟩ : ∃ clause next, pairing.compile .assign none 1 =
      .ok clause next ∧ clause.body.flatMap Step.ignores = [⟨"w", 0⟩] := ⟨_, _, rfl, rfl⟩
  exact ⟨clause, next, ok, ignored, Rule.canonical_of_compile (by decide) ok⟩

end Datalog
