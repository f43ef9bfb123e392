import Datalog.Proofs.Compile.Queue

/-!
# Proofs/Compile/Turns — what variables stand for

A turn takes literals apart, lets a variable stand for a bound term, or adds a step
(`Compile.turn_advances`).  What it leaves mentions no unbound variable more often than the literal
that it took.  So a variable that a step mentions and none binds, which is one that a negated goal
ignores, is not queued any more (`Compile.Orderly`), and will stand for nothing.
-/

namespace Datalog

/-! ## Occurrences -/

namespace Term

variable {σ : Bindings} {v : Var}

theorem count_substituteAll_le {ts : List Term}
    (h : ∀ t ∈ ts, (t.substitute σ).occurrences.count v ≤ t.occurrences.count v) :
    (occurrencesOf (substituteAll σ ts)).count v ≤ (occurrencesOf ts).count v := by
  induction ts with
  | nil => exact Nat.le_refl _
  | cons t ts ih =>
    rw [substituteAll, occurrencesOf, occurrencesOf, List.count_append, List.count_append]
    exact Nat.add_le_add (h t (List.mem_cons_self ..))
      (ih fun u hu => h u (List.mem_cons_of_mem _ hu))

/-- **A variable that occurs in nothing that is put in place** occurs no more often afterwards. -/
theorem count_substitute_le (absent : ∀ w t, σ.get? w = some t → v ∉ t.occurrences) (t : Term) :
    (t.substitute σ).occurrences.count v ≤ t.occurrences.count v := by
  induction t with
  | var w =>
    rw [substitute]
    cases hw : σ.get? w with
    | none => exact Nat.le_refl _
    | some s =>
      rw [Option.getD_some, List.count_eq_zero.2 (absent w s hw)]
      exact Nat.zero_le _
  | lit => exact Nat.le_refl _
  | ctor f args ih => exact count_substituteAll_le ih
  | call f args ih => exact count_substituteAll_le ih

theorem count_occurrencesOf_le {ts us : List Term} (h : ts.Sublist us) :
    (occurrencesOf ts).count v ≤ (occurrencesOf us).count v := by
  rw [occurrencesOf_eq_flatMap, occurrencesOf_eq_flatMap]
  exact (h.flatMap _).count_le v

end Term

namespace Compile

open Draft

variable {rule : Rule} {mode : Unification} {old : Nat} {d d' : Draft} {v : Var}
  {owed : List (Literal × Bool)}

/-- The variables of the queued literals, one entry per occurrence. -/
def waiting (queue : List (Literal × Bool)) : List Var := queue.flatMap fun e => e.1.occurrences

@[simp] theorem waiting_cons (e : Literal × Bool) (queue : List (Literal × Bool)) :
    waiting (e :: queue) = e.1.occurrences ++ waiting queue := rfl

@[simp] theorem waiting_append (owed queue : List (Literal × Bool)) :
    waiting (owed ++ queue) = waiting owed ++ waiting queue := List.flatMap_append

/-- Equations mention what their sides mention. -/
theorem count_waiting_equations_le (v : Var) : ∀ ls rs : List Term,
    (waiting (equations ls rs)).count v ≤
      (Term.occurrencesOf ls).count v + (Term.occurrencesOf rs).count v
  | [], rs => Nat.zero_le _
  | l :: ls, [] => Nat.zero_le _
  | l :: ls, r :: rs => by
    have rest := count_waiting_equations_le v ls rs
    have first : equations (l :: ls) (r :: rs) = (.unify l r false, false) :: equations ls rs := rfl
    rw [first, waiting_cons, Term.occurrencesOf, Term.occurrencesOf, Literal.occurrences]
    simp only [List.count_append]
    omega

theorem occurrencesOf_vars (ys : List Var) : Term.occurrencesOf (ys.map .var) = ys := by
  induction ys with
  | nil => rfl
  | cons y ys ih => exact congrArg (y :: ·) ih

/-- Equations of bound variables mention what is unbound on their other sides. -/
theorem count_waiting_binders_le {ys : List Var} {us ts : List Term} (sub : us.Sublist ts)
    (hv : v ∉ ys) :
    (waiting (equations (ys.map .var) us)).count v ≤ (Term.occurrencesOf ts).count v := by
  have le := count_waiting_equations_le v (ys.map .var) us
  rw [occurrencesOf_vars, List.count_eq_zero.2 hv, Nat.zero_add] at le
  exact Nat.le_trans le (Term.count_occurrencesOf_le sub)

/-! ## What a turn comes to -/

/-- **What a turn comes to** with a literal in which the variables `vs` occur. -/
inductive Advances (rule : Rule) (vs : List Var) (d : Draft) :
    List (Literal × Bool) → Draft → Prop
  /-- The literal is taken apart. -/
  | apart {owed : List (Literal × Bool)}
      (few : ∀ v ∉ d.bound, (waiting owed).count v ≤ vs.count v) : Advances rule vs d owed d
  /-- A variable stands for a bound term. -/
  | inline {v : Var} {t : Term} (bound : t.occurrences ⊆ d.bound) (unbound : v ∉ d.bound)
      (unused : d.inlined.get? v = none) (mem : v ∈ vs) : Advances rule vs d [] (d.inlining v t)
  /-- A step is added; the variables that it leaves unbound are ignored. -/
  | emit {owed : List (Literal × Bool)} {step : Step} {n : Nat} (hn : d.next ≤ n)
      (unused : ∀ v ∈ step.vars, d.inlined.get? v = none)
      (few : ∀ v ∉ (d.emitted step).bound, (waiting owed).count v ≤ vs.count v)
      (ignored : ∀ v ∈ step.vars, v ∉ (d.emitted step).bound →
        Single rule v ∧ v ∈ vs ∧ v ∉ waiting owed) :
      Advances rule vs d owed (({ d with next := n } : Draft).emitted step)

namespace Advances

variable {vs ws : List Var} {step : Step} {n : Nat}

/-- A step that binds what it mentions. -/
theorem binding (hn : d.next ≤ n) (binds : step.binds = true)
    (unused : ∀ v ∈ step.vars, d.inlined.get? v = none)
    (few : ∀ v ∉ (d.emitted step).bound, (waiting owed).count v ≤ vs.count v) :
    Advances rule vs d owed (({ d with next := n } : Draft).emitted step) :=
  .emit hn unused few fun _ hv unbound =>
    (unbound (mem_bound_emitted.2 (.inr ⟨binds, hv⟩))).elim

/-- Only the unbound variables of the literal matter. -/
theorem mono (h : Advances rule vs d owed d') (le : ∀ v ∉ d.bound, vs.count v ≤ ws.count v) :
    Advances rule ws d owed d' := by
  have mem {v : Var} (unbound : v ∉ d.bound) (hv : v ∈ vs) : v ∈ ws :=
    List.count_pos_iff.1 (Nat.lt_of_lt_of_le (List.count_pos_iff.2 hv) (le v unbound))
  have kept {step : Step} {v : Var} (hv : v ∉ (d.emitted step).bound) : v ∉ d.bound :=
    fun hb => hv (mem_bound_emitted.2 (.inl hb))
  cases h with
  | apart few => exact .apart fun v hv => Nat.le_trans (few v hv) (le v hv)
  | inline bound unbound unused hv => exact .inline bound unbound unused (mem unbound hv)
  | emit hn unused few ignored =>
    refine .emit hn unused (fun v hv => Nat.le_trans (few v hv) (le v (kept hv))) ?_
    intro v hv unbound
    obtain ⟨single, hvs, gone⟩ := ignored v hv unbound
    exact ⟨single, mem (kept unbound) hvs, gone⟩

theorem before (h : Advances rule vs d owed d') : d.Before d' := by
  cases h with
  | apart => exact .refl d
  | inline _ _ unused => exact .inlining unused
  | emit => exact (Before.withNext d _).trans (.emitted ..)

theorem count_owed_le (h : Advances rule vs d owed d') (unbound : v ∉ d'.bound) :
    (waiting owed).count v ≤ vs.count v := by
  cases h with
  | apart few => exact few v unbound
  | inline => exact Nat.zero_le _
  | emit _ _ few => exact few v unbound

variable {e : Literal × Bool} {queue : List (Literal × Bool)}

/-- **No unbound variable is queued more often** than before. -/
theorem count_waiting_le (h : Advances rule e.1.occurrences d owed d') (unbound : v ∉ d'.bound) :
    (waiting (owed ++ queue)).count v ≤ (waiting (e :: queue)).count v := by
  rw [waiting_append, waiting_cons, List.count_append, List.count_append]
  exact Nat.add_le_add_right (h.count_owed_le unbound) _

/-- Nor is any that was not queued. -/
theorem mem_waiting (h : Advances rule e.1.occurrences d owed d') (unbound : v ∉ d'.bound)
    (hv : v ∈ waiting (owed ++ queue)) : v ∈ waiting (e :: queue) :=
  List.count_pos_iff.1 (Nat.lt_of_lt_of_le (List.count_pos_iff.2 hv) (h.count_waiting_le unbound))

end Advances

/-- **A pattern**, as it reads. -/
theorem turnPattern_advances {l : Literal} {value t : Term} (settled : d.Settled old)
    (bound : value.occurrences ⊆ d.bound) (unused : ∀ v ∈ t.occurrences, d.inlined.get? v = none)
    (free : t.isBoundBy d.bound = false)
    (ok : turnPattern rule mode l value t d = .ok owed d') :
    Advances rule t.occurrences d owed d' := by
  cases t with
  | var v =>
    have unbound : v ∉ d.bound := by simpa [Term.isBoundBy, Term.occurrences] using free
    have unused := unused v (List.mem_singleton.2 rfl)
    rw [turnPattern] at ok
    split at ok
    · obtain ⟨_, _, inlined, ok⟩ := Outcome.bind_ok_iff.1 ok
      obtain rfl := inline_ok_iff.1 inlined
      obtain ⟨rfl, rfl⟩ := Outcome.pure_ok_iff.1 ok
      exact .inline bound unbound unused (List.mem_singleton.2 rfl)
    · obtain ⟨_, _, emitted, ok⟩ := Outcome.bind_ok_iff.1 ok
      obtain rfl := emit_ok_iff.1 emitted
      obtain ⟨rfl, rfl⟩ := Outcome.pure_ok_iff.1 ok
      refine .binding (Nat.le_refl _) rfl (fun w hw => ?_) fun _ _ => Nat.zero_le _
      rcases List.mem_cons.1 (List.mem_eraseDups.1 hw) with rfl | hw
      · exact unused
      · exact settled.inlined_of_bound (bound hw)
  | ctor f args =>
    rw [turnPattern] at ok
    obtain ⟨ys, _, invented, ok⟩ := Outcome.bind_ok_iff.1 ok
    obtain ⟨rfl, rfl⟩ := inventAll_ok_iff.1 invented
    obtain ⟨_, _, emitted, ok⟩ := Outcome.bind_ok_iff.1 ok
    obtain rfl := emit_ok_iff.1 emitted
    obtain ⟨rfl, rfl⟩ := Outcome.pure_ok_iff.1 ok
    refine .binding (Nat.le_add_right ..) rfl (fun w hw => ?_) fun w hw => ?_
    · rcases List.mem_append.1 (List.mem_eraseDups.1 hw) with hw | hw
      · exact settled.inlined_of_bound (bound hw)
      · exact settled.inlined_of_new (Var.number_of_mem_freshes hw).1
    · refine count_waiting_binders_le (.refl args) fun hy => hw ?_
      exact mem_bound_emitted.2 (.inr ⟨rfl, List.mem_eraseDups.2 (List.mem_append_right _ hy)⟩)
  | lit => cases free
  | call => cases ok

/-- **An equation**, as it reads. -/
theorem turnEquation_advances {l r : Term} (settled : d.Settled old)
    (unused : ∀ v ∈ l.occurrences ++ r.occurrences, d.inlined.get? v = none)
    (ok : turnEquation rule mode l r d = .ok owed d') :
    Advances rule (l.occurrences ++ r.occurrences) d owed d' := by
  rw [turnEquation_eq] at ok
  have bound {t : Term} (ht : t.isBoundBy d.bound = true) : t.occurrences ⊆ d.bound :=
    fun v hv => mem_of_isBoundBy ht hv
  have left (v : Var) (_ : v ∉ d.bound) :
      l.occurrences.count v ≤ (l.occurrences ++ r.occurrences).count v :=
    (List.sublist_append_left ..).count_le v
  have right (v : Var) (_ : v ∉ d.bound) :
      r.occurrences.count v ≤ (l.occurrences ++ r.occurrences).count v :=
    (List.sublist_append_right ..).count_le v
  cases hl : l.isBoundBy d.bound <;> cases hr : r.isBoundBy d.bound <;> rw [hl, hr] at ok <;>
    dsimp only at ok
  · cases l with
    | ctor f as =>
      cases r with
      | ctor g bs =>
        dsimp only at ok
        split at ok
        · obtain ⟨rfl, rfl⟩ : equations as bs = owed ∧ d = d' := by cases ok; exact ⟨rfl, rfl⟩
          refine .apart fun v _ => ?_
          rw [List.count_append]
          exact count_waiting_equations_le v as bs
        · cases ok
      | var | lit | call => cases ok
    | var | lit | call => cases r <;> cases ok
  · exact (turnPattern_advances settled (bound hr)
      (fun v hv => unused v (List.mem_append_left _ hv)) hl ok).mono left
  · exact (turnPattern_advances settled (bound hl)
      (fun v hv => unused v (List.mem_append_right _ hv)) hr ok).mono right
  · cases ok
    refine .binding (Nat.le_refl _) rfl (fun v hv => ?_) fun v _ => Nat.zero_le _
    exact unused v (List.mem_eraseDups.1 hv)

/-- **What an argument becomes**: one that is not free is bound, or ignored. -/
theorem argument_sorts {met met' : List Var} {t : Term} {arg : Arg} {owed : List (Var × Term)}
    (ok : argument rule met t d = .ok (arg, met', owed) d') (given : arg.isFree = false) :
    ∀ v ∈ arg.term.occurrences,
      v ∈ d.bound ∨ Single rule v ∧ v ∈ (t.substitute d.inlined).occurrences := by
  unfold argument at ok
  rw [Outcome.bind_of_ok (current_eq t), Outcome.bind_of_ok (isBound_eq _)] at ok
  cases bound : (t.substitute d.inlined).isBoundBy d.bound with
  | true =>
    rw [bound] at ok
    cases ok
    exact fun v hv => .inl (mem_of_isBoundBy bound hv)
  | false =>
    rw [bound] at ok
    cases hv : (t.substitute d.inlined).asVar? with
    | none =>
      rw [hv] at ok
      cases ok
      cases given
    | some v =>
      rw [hv] at ok
      have read : t.substitute d.inlined = .var v := Term.eq_var_of_asVar? hv
      by_cases hm : v ∉ met
      · simp only [if_pos hm] at ok
        cases ok
        split at given
        · next single =>
          rw [if_pos single, read]
          exact fun w hw => .inr ⟨List.mem_singleton.1 hw ▸ single, hw⟩
        · cases given
      · simp only [if_neg hm] at ok
        cases ok
        cases given

/-- **So do the arguments of a goal.** -/
theorem arguments_sorts {ts : List Term} : ∀ {met : List Var} {args : List Arg}
    {owed : List (Var × Term)} {d d' : Draft}, arguments rule met ts d = .ok (args, owed) d' →
    ∀ arg ∈ args, arg.isFree = false → ∀ v ∈ arg.term.occurrences,
      v ∈ d.bound ∨ Single rule v ∧ v ∈ Term.occurrencesOf (ts.map (·.substitute d.inlined)) := by
  induction ts with
  | nil =>
    intro met args owed d d' ok
    cases ok
    exact nofun
  | cons t ts ih =>
    intro met args owed d d' ok arg harg given v hv
    obtain ⟨first, met', owes, _, hfirst, -, -⟩ :=
      exists_argument_owes rule met (d := d) (t := t) rfl
    rw [arguments, Outcome.bind_of_ok hfirst] at ok
    obtain ⟨⟨rest, _⟩, _, later, ok⟩ := Outcome.bind_ok_iff.1 ok
    cases ok
    rcases List.mem_cons.1 harg with rfl | harg
    · exact (argument_sorts hfirst given v hv).imp_right
        fun h => ⟨h.1, List.mem_append_left _ h.2⟩
    · exact (ih later arg harg given v hv).imp_right
        fun h => ⟨h.1, List.mem_append_right _ h.2⟩

/-- **An atom**, as it reads. -/
theorem turnAtom_advances {delta : Bool} {a : Atom} (settled : d.Settled old)
    (unused : ∀ v ∈ a.occurrences, d.inlined.get? v = none)
    (ok : turnAtom rule delta a d = .ok owed d') : Advances rule a.occurrences d owed d' := by
  have same : List.Forall₂ d.ReadsAs a.args a.args := List.forall₂_same.2 fun _ _ => rfl
  obtain ⟨args, owes, _, hargs, -, given⟩ := exists_arguments_owes rule [] same
  have written : Term.occurrencesOf a.args = a.occurrences := Term.occurrencesOf_eq_flatMap a.args
  rw [turnAtom_eq hargs] at ok
  split at ok
  · cases ok
  split at ok
  · cases ok
  split at ok
  · cases ok
  next safe =>
  cases ok
  let g : Goal := { relation := a.relation, args, negated := a.negated, delta }
  have binders : (owes.map fun e => Term.var e.1) = (owes.map Prod.fst).map .var := by
    rw [List.map_map]
    rfl
  refine .emit (Nat.le_add_right ..) (given.unused (g := g) settled) (fun v hv => ?_)
    fun v hv unbound => ?_
  · rw [← written, binders]
    exact count_waiting_binders_le given.terms fun hy => hv (given.bound (a := a) safe hy)
  · have negated : a.negated = true := by
      by_contra positive
      exact unbound (mem_bound_emitted.2 (.inr ⟨by simp [Step.binds, positive], hv⟩))
    have closed : ∀ arg ∈ args, arg.isFree = false := by simpa [negated] using safe
    obtain ⟨_, hterm, hv⟩ := List.mem_flatMap.1 (List.mem_eraseDups.1 hv)
    obtain ⟨arg, harg, rfl⟩ := List.mem_map.1 hterm
    rcases arguments_sorts hargs arg harg (closed arg harg) v hv with hb | ⟨single, hv⟩
    · exact (unbound (mem_bound_emitted.2 (.inl hb))).elim
    have read : a.args.map (·.substitute d.inlined) = a.args :=
      (List.map_congr_left fun t ht => Term.substitute_eq_self fun w hw =>
        unused w (List.mem_flatMap.2 ⟨t, ht, hw⟩)).trans (List.map_id' a.args)
    have nothing : owes = [] := List.eq_nil_iff_forall_not_mem.2 fun e he =>
      Bool.true_eq_false.mp (closed _ (given.free e.1 (List.mem_map_of_mem he)).1)
    rw [read, written] at hv
    rw [nothing]
    exact ⟨single, hv, List.not_mem_nil⟩

/-- **What a turn comes to**, by the literal as it is queued. -/
theorem turn_advances {e : Literal × Bool} (settled : d.Settled old)
    (taken : turn rule mode e d = .ok owed d') : Advances rule e.1.occurrences d owed d' := by
  have absent {v : Var} (unbound : v ∉ d.bound) (w : Var) (t : Term)
      (ht : d.inlined.get? w = some t) : v ∉ t.occurrences :=
    fun hv => unbound (settled.bound w t ht hv)
  have sides {l r : Term} (v : Var) (unbound : v ∉ d.bound) :
      ((l.substitute d.inlined).occurrences ++ (r.substitute d.inlined).occurrences).count v ≤
        (l.occurrences ++ r.occurrences).count v := by
    rw [List.count_append, List.count_append]
    exact Nat.add_le_add (Term.count_substitute_le (absent unbound) l)
      (Term.count_substitute_le (absent unbound) r)
  obtain ⟨l, mark⟩ := e
  match l with
  | .atom a =>
    have read : turnAtom rule mark { a with args := a.args.map (·.substitute d.inlined) } d =
        .ok owed d' := (Outcome.bind_of_ok (mapM_current_eq a.args)).symm.trans taken
    refine (turnAtom_advances settled (fun v hv => ?_) read).mono fun v unbound => ?_
    · obtain ⟨_, ht, hv⟩ := List.mem_flatMap.1 hv
      obtain ⟨t, _, rfl⟩ := List.mem_map.1 ht
      exact settled.inlined_of_mem hv
    · have le := Term.count_substituteAll_le fun t (_ : t ∈ a.args) =>
        Term.count_substitute_le (absent unbound) t
      rw [Term.substituteAll_eq_map, Term.occurrencesOf_eq_flatMap,
        Term.occurrencesOf_eq_flatMap] at le
      exact le
  | .unify l r false =>
    rw [turn_equation] at taken
    refine (turnEquation_advances settled (fun v hv => ?_) taken).mono sides
    rcases List.mem_append.1 hv with hv | hv <;> exact settled.inlined_of_mem hv
  | .unify l r true =>
    obtain ⟨_, _, compared, taken⟩ := Outcome.bind_ok_iff.1 taken
    obtain ⟨rfl, rfl⟩ := Outcome.pure_ok_iff.1 taken
    rw [distinguish_eq] at compared
    dsimp only at compared
    split at compared
    · cases compared
      refine .binding (Nat.le_refl _) rfl (fun v hv => ?_) fun v _ => Nat.zero_le _
      rcases List.mem_append.1 (List.mem_eraseDups.1 hv) with hv | hv <;>
        exact settled.inlined_of_mem hv
    · cases compared

/-! ## What holds between two turns -/

/-- **What holds between two turns.**  A variable that a step mentions and none binds is not queued,
and no variable that a step mentions stands for anything. -/
structure Orderly (rule : Rule) (old : Nat) (p : Point) : Prop where
  settled : p.draft.Settled old
  number : ∀ v ∈ waiting p.queue, v ∉ p.draft.bound → v.number < old
  once : Once (fun v => Single rule v ∧ v ∉ p.draft.bound) (waiting p.queue)
  passed : ∀ step ∈ p.draft.steps, ∀ v ∈ step.vars, v ∉ p.draft.bound → v ∉ waiting p.queue
  unused : ∀ step ∈ p.draft.steps, ∀ v ∈ step.vars, p.draft.inlined.get? v = none

namespace Orderly

variable {e : Literal × Bool} {queue : List (Literal × Bool)} {p q : Point}

/-- Before the first turn. -/
theorem start {next : Nat} (number : ∀ v ∈ waiting queue, v.number < next)
    (once : Once (Single rule) (waiting queue)) : Orderly rule next ⟨queue, { next }⟩ :=
  ⟨.start (Nat.le_refl _), fun v hv _ => number v hv, fun v h => once v h.1, nofun, nofun⟩

/-- **A turn keeps the order.** -/
theorem turn (h : Orderly rule old ⟨e :: queue, d⟩)
    (taken : Compile.turn rule mode e d = .ok owed d') :
    Orderly rule old ⟨owed ++ queue, d'⟩ ∧ d.Before d' := by
  have advances := turn_advances h.settled taken
  have before := advances.before
  have was {v : Var} (unbound : v ∉ d'.bound) : v ∉ d.bound := fun hb => unbound (before.bound hb)
  have number : ∀ v ∈ waiting (owed ++ queue), v ∉ d'.bound → v.number < old :=
    fun v hv unbound => h.number v (advances.mem_waiting unbound hv) (was unbound)
  have once : Once (fun v => Single rule v ∧ v ∉ d'.bound) (waiting (owed ++ queue)) :=
    fun v hv => Nat.le_trans (advances.count_waiting_le hv.2) (h.once v ⟨hv.1, was hv.2⟩)
  have passed (step : Step) (hstep : step ∈ d.steps) (v : Var) (hv : v ∈ step.vars)
      (unbound : v ∉ d'.bound) : v ∉ waiting (owed ++ queue) :=
    fun hw => h.passed step hstep v hv (was unbound) (advances.mem_waiting unbound hw)
  refine ⟨?_, before⟩
  cases advances with
  | apart => exact ⟨h.settled, number, once, passed, h.unused⟩
  | @inline v t bound unbound unused mem =>
    have queued : v ∈ waiting (e :: queue) := List.mem_append_left _ mem
    refine ⟨h.settled.inline bound unbound (h.number v queued unbound), number, once, passed,
      fun step hstep w hw => ?_⟩
    rw [inlining, Assoc.get?_put, if_neg]
    · exact h.unused step hstep w hw
    · rintro rfl
      exact h.passed step hstep v hw unbound queued
  | @emit _ step n hn unused _ ignored =>
    refine ⟨(h.settled.withNext hn).emit unused, number, once, fun s hs v hv unbound => ?_,
      fun s hs v hv => ?_⟩ <;>
      rcases List.mem_append.1 hs with hs | hs
    · exact passed s hs v hv unbound
    · obtain rfl := List.mem_singleton.1 hs
      obtain ⟨single, mem, gone⟩ := ignored v hv unbound
      intro hw
      rcases List.mem_append.1 (waiting_append owed queue ▸ hw) with hw | hw
      · exact gone hw
      · exact h.once.not_single mem hw ⟨single, was unbound⟩
    · exact h.unused s hs v hv
    · obtain rfl := List.mem_singleton.1 hs
      exact unused v hv

/-- **So does a run.** -/
theorem reaches (h : Orderly rule old p) (reaches : Reaches rule mode p q) :
    Orderly rule old q ∧ p.draft.Before q.draft := by
  induction reaches with
  | refl => exact ⟨h, .refl _⟩
  | turn _ taken ih =>
    obtain ⟨orderly, before⟩ := ih
    obtain ⟨orderly, before'⟩ := orderly.turn taken
    exact ⟨orderly, before.trans before'⟩

end Orderly

/-! ## Runs -/

namespace Reaches

variable {p q r : Point}

theorem trans (h : Reaches rule mode p q) (h' : Reaches rule mode q r) : Reaches rule mode p r := by
  induction h' with
  | refl => exact h
  | turn _ taken ih => exact ih.turn taken

/-- **A queue that runs empty** is passed by, whatever is queued behind it. -/
theorem of_drain {turns : Nat} {post : List (Literal × Bool)} : ∀ {pre : List (Literal × Bool)}
    {d : Draft}, drain rule mode turns pre d = some (.ok () d') →
    Reaches rule mode ⟨pre ++ post, d⟩ ⟨post, d'⟩ := by
  induction turns with
  | zero =>
    intro pre d drained
    cases pre with
    | nil =>
      cases drained
      exact .refl
    | cons e queue => cases drained
  | succ turns ih =>
    intro pre d drained
    cases pre with
    | nil =>
      cases drained
      exact .refl
    | cons e queue =>
      rw [drain] at drained
      cases taken : Compile.turn rule mode e d with
      | ok owed d₁ =>
        rw [taken] at drained
        have rest := ih drained
        rw [List.append_assoc] at rest
        exact (Reaches.refl.turn taken).trans rest
      | error r d₁ =>
        rw [taken] at drained
        cases drained

end Reaches

end Compile

namespace Rule

variable {mode : Unification} {delta : Option Nat} {rule : Rule} {next : Nat}

/-- What is queued first are the literals of the body. -/
theorem orderly_marked (below : ∀ v ∈ rule.occurrences, v.number < next) :
    Compile.Orderly rule next ⟨rule.marked delta, { next }⟩ := by
  have ready := @ready_marked delta rule next below
  exact .start ready.old ready.once

/-- **What variables stand for is settled** at every point between two turns.  A variable that
stands for a term is not bound, no step mentions it, and the variables of the term are bound.  So it
makes no difference whether a term is read once or twice, or is read once more later on.  Among the
points are those between two literals of the body, and the one at the end, where the clause is
complete. -/
theorem inlined_settled (below : ∀ v ∈ rule.occurrences, v.number < next) :
    (∀ p, Compile.Reaches rule mode ⟨rule.marked delta, { next }⟩ p →
      (∀ v t, p.draft.inlined.get? v = some t → v ∉ p.draft.bound ∧
        (∀ step ∈ p.draft.steps, v ∉ step.vars) ∧ t.occurrences ⊆ p.draft.bound) ∧
      (∀ t : Term, (t.substitute p.draft.inlined).substitute p.draft.inlined =
        t.substitute p.draft.inlined) ∧
      ∀ q, Compile.Reaches rule mode p q →
        (∀ v t, p.draft.inlined.get? v = some t →
          q.draft.inlined.get? v = some t ∧ t.substitute q.draft.inlined = t) ∧
        ∀ t : Term, (t.substitute p.draft.inlined).substitute q.draft.inlined =
          t.substitute q.draft.inlined) ∧
    (∀ pre post d, rule.marked delta = pre ++ post →
      (pre.forM fun e => Compile.literal rule mode e.2 e.1) { next } = .ok () d →
      Compile.Reaches rule mode ⟨rule.marked delta, { next }⟩ ⟨post, d⟩) ∧
    ∀ c n, rule.compile mode delta next = .ok c n →
      ∃ d, Compile.Reaches rule mode ⟨rule.marked delta, { next }⟩ ⟨[], d⟩ ∧ d.steps = c.body ∧
        c.head.args = rule.head.args.map (·.substitute d.inlined) ∧ d.next = n := by
  have passes {pre post : List (Literal × Bool)} {d : Draft}
      (split : rule.marked delta = pre ++ post)
      (ok : (pre.forM fun e => Compile.literal rule mode e.2 e.1) { next } = .ok () d) :
      Compile.Reaches rule mode ⟨rule.marked delta, { next }⟩ ⟨post, d⟩ := by
    have drains : Compile.Drains rule mode next pre _ _ { next } := drains_marked below split
    have drained := drains.drain_eq (Nat.le_refl _)
    rw [ok] at drained
    exact split ▸ .of_drain drained
  refine ⟨fun p hp => ?_, fun pre post d split ok => passes split ok, fun c n ok => ?_⟩
  · obtain ⟨orderly, -⟩ := (orderly_marked below).reaches hp
    refine ⟨fun v t ht => ⟨orderly.settled.unbound v t ht, fun step hstep hv => ?_,
      orderly.settled.bound v t ht⟩, orderly.settled.reads_substitute, fun q hq => ?_⟩
    · exact nomatch (orderly.unused step hstep v hv).symm.trans ht
    · obtain ⟨later, before⟩ := orderly.reaches hq
      refine ⟨fun v t ht => ⟨before.inlined v t ht, ?_⟩,
        orderly.settled.substitute_substitute later.settled before⟩
      exact Term.substitute_eq_self fun w hw =>
        later.settled.inlined_of_bound (before.bound (orderly.settled.bound v t ht hw))
  · obtain ⟨d, clause, rfl⟩ := compile_ok_iff.1 ok
    obtain ⟨_, body, rfl, _⟩ := Compile.clause_ok clause
    exact ⟨d, passes (List.append_nil _).symm body, rfl, rfl, rfl⟩

end Rule

namespace Nested

/-- The variable `x`. -/
def x : Term := .var ⟨"x", 0⟩

/-- The variable `y`. -/
def y : Term := .var ⟨"y", 0⟩

/-- The variable `z`. -/
def z : Term := .var ⟨"z", 0⟩

/-- `q(z) :- r(x), c(y, z) = c(d(x), y).` -/
def rule : Rule :=
  { head := { relation := ⟨"q", 1, .bottomUp⟩, args := [z] }
    body := [.atom { relation := ⟨"r", 1, .extensional⟩, args := [x] },
      .unify (.ctor "c" [y, z]) (.ctor "c" [.ctor "d" [x], y]) false] }

/-- The draft once the atom has been compiled. -/
def searched : Draft where
  steps := [.lookup { relation := ⟨"r", 1, .extensional⟩, args := [.free ⟨"x", 0⟩] }]
  bound := [⟨"x", 0⟩]
  next := 1

/-- The points before and after the last turn. -/
def between : Compile.Point :=
  ⟨[(.unify z y false, false)], searched.inlining ⟨"y", 0⟩ (.ctor "d" [x])⟩

/-- The point after the last turn. -/
def done : Compile.Point := ⟨[], between.draft.inlining ⟨"z", 0⟩ (.ctor "d" [x])⟩

theorem reaches_between :
    Compile.Reaches rule .inline ⟨rule.marked none, { next := 1 }⟩ between := by
  have atom : Compile.Reaches rule .inline ⟨rule.marked none, { next := 1 }⟩
      ⟨[] ++ [(.unify (.ctor "c" [y, z]) (.ctor "c" [.ctor "d" [x], y]) false, false)], searched⟩ :=
    .turn .refl rfl
  have apart : Compile.Reaches rule .inline ⟨rule.marked none, { next := 1 }⟩
      ⟨[(.unify y (.ctor "d" [x]) false, false), (.unify z y false, false)] ++ [], searched⟩ :=
    .turn atom rfl
  exact .turn apart rfl

theorem reaches_done : Compile.Reaches rule .inline between done := by
  have last : Compile.Reaches rule .inline between ⟨[] ++ [], done.draft⟩ := .turn .refl rfl
  exact last

/-- Between the two equations that the constructors leave, `y` stands for `d(x)`, and the last one
does not change this. -/
theorem settled_between : (∀ v ∈ rule.occurrences, v.number < 1) ∧
    between.draft.inlined.get? ⟨"y", 0⟩ = some (.ctor "d" [x]) ∧
    ⟨"y", 0⟩ ∉ between.draft.bound ∧ (∀ step ∈ between.draft.steps, ⟨"y", 0⟩ ∉ step.vars) ∧
    done.draft.inlined.get? ⟨"y", 0⟩ = some (.ctor "d" [x]) ∧
    (Term.ctor "d" [x]).substitute done.draft.inlined = .ctor "d" [x] := by
  have below : ∀ v ∈ rule.occurrences, v.number < 1 := by decide
  have stands : between.draft.inlined.get? ⟨"y", 0⟩ = some (.ctor "d" [x]) := rfl
  obtain ⟨here, _, later⟩ :=
    (@Rule.inlined_settled .inline none rule 1 below).1 between reaches_between
  obtain ⟨unbound, unmentioned, _⟩ := here _ _ stands
  obtain ⟨kept, _⟩ := later done reaches_done
  exact ⟨below, stands, unbound, unmentioned, kept _ _ stands⟩

end Nested

end Datalog
