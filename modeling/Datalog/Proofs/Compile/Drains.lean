import Datalog.Proofs.Compile.Settled

/-!
# Proofs/Compile/Drains — equations from the queue

Taken from a queue, an equation comes to what it comes to along its terms, in at most one turn for
each node that is written (`Compile.drainsEquation`).  A term that is not bound has the head that it
was written with, so it is never taken apart any further.
-/

namespace Datalog

namespace Compile

open Draft

variable {rule : Rule} {mode : Unification} {old : Nat} {d d' : Draft}

/-! ## Turns -/

/-- **Emptying the queue comes to the action**, in at most `n` turns and whatever is queued behind
it; the draft stays settled. -/
structure Drains (rule : Rule) (mode : Unification) (old : Nat) (queue : List (Literal × Bool))
    (x : Compile Unit) (n : Nat) (d : Draft) : Prop where
  turns : ∃ k ≤ n, ∀ more rest, drain rule mode (more + k) (queue ++ rest) d =
    match x d with
    | .ok _ d' => drain rule mode more rest d'
    | .error r d' => some (.error r d')
  settled : ∀ {d'}, x d = .ok () d' → d'.Settled old ∧ d.Before d'

namespace Drains

variable {e : Literal × Bool} {queue queue' owed : List (Literal × Bool)} {x y : Compile Unit}
  {n m : Nat} {r : Rejection}

theorem nil (h : d.Settled old) : Drains rule mode old [] (pure ()) 0 d where
  turns := ⟨0, Nat.le_refl _, fun more rest => rfl⟩
  settled ok := by
    obtain ⟨_, rfl⟩ := Outcome.pure_ok_iff.1 ok
    exact ⟨h, .refl d⟩

theorem mono (h : Drains rule mode old queue x n d) (hn : n ≤ m) :
    Drains rule mode old queue x m d where
  turns := h.turns.imp fun _ hk => ⟨Nat.le_trans hk.1 hn, hk.2⟩
  settled := h.settled

theorem congr (h : Drains rule mode old queue y n d) (hx : x d = y d) :
    Drains rule mode old queue x n d where
  turns := by
    rw [hx]
    exact h.turns
  settled ok := h.settled (hx ▸ ok)

/-- **One queue after the other.** -/
theorem append (h : Drains rule mode old queue x n d)
    (h' : ∀ d', d'.Settled old → d.Before d' → Drains rule mode old queue' y m d') :
    Drains rule mode old (queue ++ queue') (x >>= fun _ => y) (n + m) d := by
  obtain ⟨⟨k, hk, first⟩, settled⟩ := h
  cases hx : x d with
  | error r d₁ =>
    refine ⟨⟨k, Nat.le_trans hk (Nat.le_add_right ..), fun more rest => ?_⟩, fun ok => ?_⟩
    · rw [Outcome.bind_of_error hx, List.append_assoc, first, hx]
    · rw [Outcome.bind_of_error hx] at ok
      cases ok
  | ok u d₁ =>
    obtain ⟨settled₁, before⟩ := settled hx
    obtain ⟨⟨k', hk', later⟩, settled'⟩ := h' d₁ settled₁ before
    refine ⟨⟨k' + k, by omega, fun more rest => ?_⟩, fun ok => ?_⟩
    · rw [Outcome.bind_of_ok hx, List.append_assoc, ← Nat.add_assoc, first, hx]
      exact later more rest
    · rw [Outcome.bind_of_ok hx] at ok
      obtain ⟨settled₂, before'⟩ := settled' ok
      exact ⟨settled₂, before.trans before'⟩

/-- **A turn is taken**, and what it leaves is drained. -/
theorem of_turn (h : turn rule mode e d = .ok owed d') (before : d.Before d') (hx : x d = y d')
    (rest : Drains rule mode old owed y n d') : Drains rule mode old [e] x (n + 1) d := by
  obtain ⟨⟨k, hk, later⟩, settled⟩ := rest
  refine ⟨⟨k + 1, Nat.succ_le_succ hk, fun more rest => ?_⟩, fun ok => ?_⟩
  · rw [hx, ← later, List.singleton_append, ← Nat.add_assoc, drain, h]
  · obtain ⟨settled, before'⟩ := settled (hx ▸ ok)
    exact ⟨settled, before.trans before'⟩

/-- A turn that leaves nothing. -/
theorem of_last (h : turn rule mode e d = .ok [] d') (settled : d'.Settled old)
    (before : d.Before d') (hx : x d = .ok () d') : Drains rule mode old [e] x (n + 1) d :=
  (of_turn h before (y := pure ()) hx (.nil settled)).mono (Nat.succ_le_succ (Nat.zero_le n))

theorem of_error (h : turn rule mode e d = .error r d') (hx : x d = .error r d') :
    Drains rule mode old [e] x (n + 1) d := by
  refine ⟨⟨1, Nat.succ_le_succ (Nat.zero_le n), fun more rest => ?_⟩, fun ok => ?_⟩
  · rw [hx, List.singleton_append, drain, h]
  · rw [hx] at ok
    cases ok

end Drains

/-! ## Equations -/

theorem turn_equation (l r : Term) (mark : Bool) :
    turn rule mode (.unify l r false, mark) d =
      turnEquation rule mode (l.substitute d.inlined) (r.substitute d.inlined) d := rfl

theorem turnEquation_eq (l r : Term) : turnEquation rule mode l r d =
    match l.isBoundBy d.bound, r.isBoundBy d.bound with
    | true, true => .ok [] (d.emitted (.check l r false))
    | false, true => turnPattern rule mode (.unify l r false) r l d
    | true, false => turnPattern rule mode (.unify l r false) l r d
    | false, false =>
      match l, r with
      | .ctor f as, .ctor g bs =>
        if f = g ∧ as.length = bs.length then .ok (equations as bs) d
        else .error (.unsatisfiable rule (.unify l r false)) d
      | _, _ => .error (.notInvertible rule (.unify l r false)) d := by
  unfold turnEquation
  rw [Outcome.bind_of_ok (isBound_eq l), Outcome.bind_of_ok (isBound_eq r)]
  cases l.isBoundBy d.bound <;> cases r.isBoundBy d.bound
  · cases l <;> cases r <;> dsimp only <;> first | rfl | (split <;> rfl)
  · rfl
  · rfl
  · rfl

/-- **A pattern is matched alike** from the queue, if it is not bound. -/
def DrainsPattern (rule : Rule) (mode : Unification) (old : Nat) (t : Term) : Prop :=
  ∀ {l : Literal} {value : Term} {e : Literal × Bool} {d : Draft}, d.Settled old →
    (∀ v ∈ t.occurrences, v.number < old) → value.occurrences ⊆ d.bound →
    (t.substitute d.inlined).isBoundBy d.bound = false →
    turn rule mode e d = turnPattern rule mode l value (t.substitute d.inlined) d →
    Drains rule mode old [e] (bindPattern rule mode l value t) t.nodes d

/-- What an equation of an invented variable comes to. -/
def equateBinder (rule : Rule) (mode : Unification) (d : Draft) (y : Var) (t : Term) :
    Compile Unit :=
  if (t.substitute d.inlined).isBoundBy d.bound then
    emit (.check (.var y) (t.substitute d.inlined) false)
  else bindPattern rule mode (.unify (.var y) (t.substitute d.inlined) false) (.var y) t

theorem equateBinders_cons (y : Var) (ys : List Var) (t : Term) (ts : List Term) :
    equateBinders rule mode (y :: ys) (t :: ts) d =
      (equateBinder rule mode d y t >>= fun _ => equateBinders rule mode ys ts) d := by
  rw [equateBinders, Outcome.bind_of_ok (current_eq t), Outcome.bind_of_ok (isBound_eq _),
    equateBinder]
  split <;> rfl

theorem drains_equateBinder {t u : Term} {y : Var} (ht : DrainsPattern rule mode old t)
    (settled : d.Settled old) (number : ∀ v ∈ t.occurrences, v.number < old)
    (hu : d.ReadsAs u t) (hy : y ∈ d.bound) :
    Drains rule mode old [(.unify (.var y) u false, false)] (equateBinder rule mode d y t)
      t.nodes d := by
  have read : (Term.var y).substitute d.inlined = .var y := Term.substitute_eq_self fun v hv => by
    obtain rfl := List.mem_singleton.1 hv
    exact settled.inlined_of_bound hy
  have bound : (Term.var y).isBoundBy d.bound = true := by
    simp [Term.isBoundBy, Term.occurrences, hy]
  have taken : turn rule mode (.unify (.var y) u false, false) d =
      turnEquation rule mode (.var y) (t.substitute d.inlined) d := by
    rw [turn_equation, read, hu]
  rw [turnEquation_eq, bound] at taken
  rw [equateBinder]
  cases hb : (t.substitute d.inlined).isBoundBy d.bound with
  | true =>
    rw [hb] at taken
    have settled' := settled.check (.var y) t false
    rw [read] at settled'
    exact (Drains.of_last taken settled' (.emitted ..) rfl).mono t.nodes_pos
  | false =>
    rw [hb] at taken
    refine ht settled number (fun v hv => ?_) hb taken
    obtain rfl := List.mem_singleton.1 hv
    exact hy

/-- **So are patterns for bound variables.** -/
theorem drains_equateBinders {ts : List Term} (ih : ∀ t ∈ ts, DrainsPattern rule mode old t) :
    ∀ {ys : List Var} {us : List Term} {d : Draft}, d.Settled old →
      (∀ v ∈ Term.occurrencesOf ts, v.number < old) → List.Forall₂ d.ReadsAs us ts →
      ys ⊆ d.bound → Drains rule mode old (equations (ys.map .var) us)
        (equateBinders rule mode ys ts) (Term.nodesOf ts) d := by
  induction ts with
  | nil =>
    rintro ys us d settled - ⟨⟩ -
    rw [equations, List.zipWith_nil_right, equateBinders]
    · exact .nil settled
    · rintro _ _ _ _ - ⟨⟩
  | cons t ts ihts =>
    rintro ys us d settled number (_ | @⟨u, _, us, _, hu, hus⟩) bound
    cases ys with
    | nil => exact (Drains.nil settled).mono (Nat.zero_le _)
    | cons y ys =>
      have first : Drains rule mode old [(.unify (.var y) u false, false)]
          (equateBinder rule mode d y t) t.nodes d :=
        drains_equateBinder (ih t (List.mem_cons_self ..)) settled
          (fun v hv => number v (List.mem_append_left _ hv)) hu (bound (List.mem_cons_self ..))
      refine (first.append fun d' settled' before => ?_).congr (equateBinders_cons ..)
      exact ihts (fun t' ht' => ih t' (List.mem_cons_of_mem _ ht')) settled'
        (fun v hv => number v (List.mem_append_right _ hv))
        (ReadsAs.forall₂_later hus settled settled' before)
        (List.Subset.trans (fun _ h => bound (List.mem_cons_of_mem _ h)) before.bound)

/-- **A pattern is matched alike from the queue.** -/
theorem drainsPattern (t : Term) : DrainsPattern rule mode old t := by
  induction t with
  | var v =>
    intro l value e d settled number bound free taken
    obtain ⟨unused, unbound⟩ := settled.inlined_of_unbound free
    rw [settled.substitute_var free, turnPattern] at taken
    rw [bindPattern]
    by_cases h : mode = .inline ∨ value.asVar?.isSome
    · rw [if_pos h] at taken ⊢
      exact .of_last taken (settled.inline bound unbound (number v (List.mem_singleton.2 rfl)))
        (.inlining unused) rfl
    · rw [if_neg h] at taken ⊢
      refine .of_last taken (settled.emit fun w hw => ?_) (.emitted ..) rfl
      rcases List.mem_cons.1 (List.mem_eraseDups.1 hw) with rfl | hw
      · exact unused
      · exact settled.inlined_of_bound (bound hw)
  | lit =>
    intro l value e d _ _ _ free _
    cases free
  | call f args =>
    intro l value e d _ _ _ _ taken
    exact .of_error taken rfl
  | ctor f args ih =>
    intro l value e d settled number bound _ taken
    let ys := Var.freshes d.next args.length
    let d₁ := ({ d with next := d.next + args.length } : Draft).emitted (.destruct value f ys)
    have before : d.Before d₁ := (Before.withNext d _).trans (.emitted ..)
    have settled₁ : d₁.Settled old := by
      refine (settled.withNext (Nat.le_add_right ..)).emit fun w hw => ?_
      rcases List.mem_append.1 (List.mem_eraseDups.1 hw) with hw | hw
      · exact settled.inlined_of_bound (bound hw)
      · exact settled.inlined_of_new (Var.number_of_mem_freshes hw).1
    have invented : inventAll args d = .ok ys { d with next := d.next + args.length } :=
      inventAll_ok_iff.2 ⟨rfl, rfl⟩
    have invented' : inventAll (args.map (·.substitute d.inlined)) d =
        .ok ys { d with next := d.next + args.length } :=
      inventAll_ok_iff.2 (by rw [List.length_map]; exact ⟨rfl, rfl⟩)
    rw [Term.substitute, Term.substituteAll_eq_map, turnPattern, Outcome.bind_of_ok invented']
      at taken
    refine .of_turn taken before (y := equateBinders rule mode ys args) ?_ ?_
    · rw [bindPattern, Outcome.bind_of_ok invented]
      rfl
    · refine drains_equateBinders ih settled₁ number
        (ReadsAs.forall₂_later (settled.forall₂_reads args) settled settled₁ before) fun y hy => ?_
      exact mem_bound_emitted.2 (.inr ⟨rfl, List.mem_eraseDups.2 (List.mem_append_right _ hy)⟩)

/-- What an equation comes to. -/
theorem equate_eq (l r : Term) : equate rule mode l r d =
    let l' := l.substitute d.inlined
    let r' := r.substitute d.inlined
    match l'.isBoundBy d.bound, r'.isBoundBy d.bound with
    | true, true => emit (.check l' r' false) d
    | false, true => bindPattern rule mode (.unify l' r' false) r' l d
    | true, false => bindPattern rule mode (.unify l' r' false) l' r d
    | false, false =>
      match l, r with
      | .ctor f as, .ctor g bs =>
        if f = g ∧ as.length = bs.length then equateAll rule mode as bs d
        else .error (.unsatisfiable rule (.unify l' r' false)) d
      | _, _ => .error (.notInvertible rule (.unify l' r' false)) d := by
  dsimp only
  rw [equate, Outcome.bind_of_ok (current_eq l), Outcome.bind_of_ok (current_eq r),
    Outcome.bind_of_ok (isBound_eq _), Outcome.bind_of_ok (isBound_eq _)]
  cases (l.substitute d.inlined).isBoundBy d.bound <;>
    cases (r.substitute d.inlined).isBoundBy d.bound
  · cases l <;> cases r <;> dsimp only <;> first | rfl | (split <;> rfl)
  · rfl
  · rfl
  · rfl

/-- **An equation is taken apart alike** from the queue. -/
def DrainsEquation (rule : Rule) (mode : Unification) (old : Nat) (l : Term) : Prop :=
  ∀ {r ul ur : Term} {mark : Bool} {d : Draft}, d.Settled old →
    (∀ v ∈ l.occurrences, v.number < old) → (∀ v ∈ r.occurrences, v.number < old) →
    d.ReadsAs ul l → d.ReadsAs ur r →
    Drains rule mode old [(.unify ul ur false, mark)] (equate rule mode l r) (l.nodes + r.nodes) d

theorem drains_equateAll {ls : List Term} (ih : ∀ l ∈ ls, DrainsEquation rule mode old l) :
    ∀ {rs uls urs : List Term} {d : Draft}, d.Settled old →
      (∀ v ∈ Term.occurrencesOf ls, v.number < old) →
      (∀ v ∈ Term.occurrencesOf rs, v.number < old) →
      List.Forall₂ d.ReadsAs uls ls → List.Forall₂ d.ReadsAs urs rs →
      Drains rule mode old (equations uls urs) (equateAll rule mode ls rs)
        (Term.nodesOf ls + Term.nodesOf rs) d := by
  induction ls with
  | nil =>
    rintro rs uls urs d settled - - ⟨⟩ -
    cases rs <;> exact (Drains.nil settled).mono (Nat.zero_le _)
  | cons l ls ihls =>
    rintro rs uls urs d settled numl numr (_ | @⟨ul, _, uls, _, hl, hls⟩) hrs
    obtain _ | @⟨ur, r, urs, rs, hr, hrs⟩ := hrs
    · exact (Drains.nil settled).mono (Nat.zero_le _)
    · have first : Drains rule mode old [(.unify ul ur false, false)] (equate rule mode l r)
          (l.nodes + r.nodes) d :=
        ih l (List.mem_cons_self ..) settled (fun v hv => numl v (List.mem_append_left _ hv))
          (fun v hv => numr v (List.mem_append_left _ hv)) hl hr
      have all := first.append fun d' settled' before =>
        ihls (fun t ht => ih t (List.mem_cons_of_mem _ ht)) settled'
          (fun v hv => numl v (List.mem_append_right _ hv))
          (fun v hv => numr v (List.mem_append_right _ hv))
          (ReadsAs.forall₂_later hls settled settled' before)
          (ReadsAs.forall₂_later hrs settled settled' before)
      rw [equateAll]
      refine all.mono (Nat.le_of_eq ?_)
      rw [Term.nodesOf, Term.nodesOf]
      omega

/-- Neither side is bound: both are constructors, or the equation is refused. -/
theorem drains_apart {l r : Term} {e : Literal × Bool} (settled : d.Settled old)
    (hbl : (l.substitute d.inlined).isBoundBy d.bound = false)
    (hbr : (r.substitute d.inlined).isBoundBy d.bound = false)
    (taken : turn rule mode e d =
      turnEquation rule mode (l.substitute d.inlined) (r.substitute d.inlined) d)
    (apart : ∀ f as g bs, l = .ctor f as → r = .ctor g bs →
      Drains rule mode old (equations (as.map (·.substitute d.inlined))
        (bs.map (·.substitute d.inlined))) (equateAll rule mode as bs)
        (Term.nodesOf as + Term.nodesOf bs) d) :
    Drains rule mode old [e] (equate rule mode l r) (l.nodes + r.nodes) d := by
  have whole := @equate_eq rule mode d l r
  dsimp only at whole
  rw [turnEquation_eq, hbl, hbr] at taken
  rw [hbl, hbr] at whole
  have refused {x : Rejection} (taken : turn rule mode e d = .error x d)
      (whole : equate rule mode l r d = .error x d) :
      Drains rule mode old [e] (equate rule mode l r) (l.nodes + r.nodes) d :=
    (Drains.of_error taken whole (n := 0)).mono (Nat.add_pos_left l.nodes_pos _)
  -- a term that is not bound has the head that it was written with
  cases l with
  | lit => cases hbl
  | call => exact refused taken whole
  | var v =>
    rw [settled.substitute_var hbl] at taken whole
    exact refused taken whole
  | ctor f as =>
    cases r with
    | lit => cases hbr
    | call => exact refused taken whole
    | var v =>
      rw [settled.substitute_var hbr] at taken whole
      exact refused taken whole
    | ctor g bs =>
      simp only [Term.substitute, Term.substituteAll_eq_map, List.length_map] at taken whole
      split at whole
      · next same =>
        rw [if_pos same] at taken
        refine (Drains.of_turn taken (.refl d) whole (apart f as g bs rfl rfl)).mono ?_
        rw [Term.nodes, Term.nodes]
        omega
      · next differ =>
        rw [if_neg differ] at taken
        exact refused taken whole

/-- **An equation is taken apart alike from the queue.** -/
theorem drainsEquation (l : Term) : DrainsEquation rule mode old l := by
  -- only constructors on both sides lead to smaller equations
  have ways {l r ul ur : Term} {mark : Bool} {d : Draft} (settled : d.Settled old)
      (numl : ∀ v ∈ l.occurrences, v.number < old) (numr : ∀ v ∈ r.occurrences, v.number < old)
      (hl : d.ReadsAs ul l) (hr : d.ReadsAs ur r)
      (apart : ∀ f as g bs, l = .ctor f as → r = .ctor g bs →
        Drains rule mode old (equations (as.map (·.substitute d.inlined))
          (bs.map (·.substitute d.inlined))) (equateAll rule mode as bs)
          (Term.nodesOf as + Term.nodesOf bs) d) :
      Drains rule mode old [(.unify ul ur false, mark)] (equate rule mode l r)
        (l.nodes + r.nodes) d := by
    have taken : turn rule mode (.unify ul ur false, mark) d =
        turnEquation rule mode (l.substitute d.inlined) (r.substitute d.inlined) d := by
      rw [turn_equation, hl, hr]
    have whole := @equate_eq rule mode d l r
    dsimp only at whole
    cases hbl : (l.substitute d.inlined).isBoundBy d.bound <;>
      cases hbr : (r.substitute d.inlined).isBoundBy d.bound
    · exact drains_apart settled hbl hbr taken apart
    · rw [turnEquation_eq, hbl, hbr] at taken
      rw [hbl, hbr] at whole
      have pattern := drainsPattern l settled numl (fun v hv => mem_of_isBoundBy hbr hv) hbl taken
      exact (pattern.mono (Nat.le_add_right ..)).congr whole
    · rw [turnEquation_eq, hbl, hbr] at taken
      rw [hbl, hbr] at whole
      have pattern := drainsPattern r settled numr (fun v hv => mem_of_isBoundBy hbl hv) hbr taken
      exact (pattern.mono (Nat.le_add_left ..)).congr whole
    · rw [turnEquation_eq, hbl, hbr] at taken
      rw [hbl, hbr] at whole
      have last := Drains.of_last taken (settled.check l r false) (.emitted ..) whole (n := 0)
      exact last.mono (Nat.add_pos_left l.nodes_pos _)
  induction l with
  | ctor f as ih =>
    intro r ul ur mark d settled numl numr hl hr
    refine ways settled numl numr hl hr ?_
    rintro _ _ g bs ⟨⟩ rfl
    exact drains_equateAll ih settled numl numr (settled.forall₂_reads as)
      (settled.forall₂_reads bs)
  | var | lit | call =>
    intro r ul ur mark d settled numl numr hl hr
    exact ways settled numl numr hl hr nofun

/-- What a disequation comes to. -/
theorem distinguish_eq (l r : Term) : distinguish rule l r d =
    let l' := l.substitute d.inlined
    let r' := r.substitute d.inlined
    if l'.isBoundBy d.bound && r'.isBoundBy d.bound then .ok () (d.emitted (.check l' r' true))
    else .error (.unboundDisequation rule (.unify l' r' true)) d := by
  rw [distinguish, Outcome.bind_of_ok (current_eq l), Outcome.bind_of_ok (current_eq r),
    Outcome.bind_of_ok (isBound_eq _), Outcome.bind_of_ok (isBound_eq _)]
  dsimp only
  split <;> rfl

theorem drains_distinguish {l r : Term} {mark : Bool} (settled : d.Settled old) :
    Drains rule mode old [(.unify l r true, mark)] (distinguish rule l r) 1 d := by
  have taken : turn rule mode (.unify l r true, mark) d =
      (distinguish rule l r >>= fun _ => pure []) d := rfl
  have whole := @distinguish_eq rule d l r
  dsimp only at whole
  split at whole
  · rw [Outcome.bind_of_ok whole] at taken
    exact .of_last taken (settled.check l r true) (.emitted ..) whole
  · rw [Outcome.bind_of_error whole] at taken
    exact .of_error taken whole

end Compile

end Datalog
