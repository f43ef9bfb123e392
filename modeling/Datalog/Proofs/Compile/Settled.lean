import Datalog.Meaning.Queue
import Datalog.Proofs.Compile.Refusal
import Datalog.Proofs.Substitution

/-!
# Proofs/Compile/Settled — terms that are read again

A queued term may have grown since it was written, but it still **reads** as the written term does,
now and later (`Draft.ReadsAs.later`): what a variable stands for is bound, so nothing will ever be
put in place inside of it.  So the equations that a goal owes are the same for both
(`Compile.exists_arguments_owes`).
-/

namespace Datalog

namespace Term

theorem nodes_pos (t : Term) : 0 < t.nodes := by
  cases t <;> exact Nat.succ_pos _

theorem length_le_nodesOf (ts : List Term) : ts.length ≤ nodesOf ts := by
  induction ts with
  | nil => exact Nat.le_refl _
  | cons t ts ih =>
    have := t.nodes_pos
    rw [List.length_cons, nodesOf]
    omega

theorem nodesOf_le_of_sublist {ts us : List Term} (h : ts.Sublist us) :
    nodesOf ts ≤ nodesOf us := by
  induction h with
  | slnil => exact Nat.le_refl _
  | cons t _ ih => exact Nat.le_trans ih (Nat.le_add_left ..)
  | cons_cons t _ ih => exact Nat.add_le_add_left ih _

end Term

namespace Draft

variable {old : Nat} {d d' : Draft}

/-! ## Terms that are read again -/

/-- **What variables stand for is bound**, and the variables are of the rule and are not. -/
structure Settled (old : Nat) (d : Draft) : Prop where
  bound : ∀ v t, d.inlined.get? v = some t → t.occurrences ⊆ d.bound
  unbound : ∀ v t, d.inlined.get? v = some t → v ∉ d.bound
  number : ∀ v t, d.inlined.get? v = some t → v.number < old
  old_le : old ≤ d.next

/-- **One draft comes after another**: what is bound stays so, and variables stand for what they
stood for. -/
structure Before (d d' : Draft) : Prop where
  bound : d.bound ⊆ d'.bound
  inlined : ∀ v t, d.inlined.get? v = some t → d'.inlined.get? v = some t

/-- **The terms read the same.** -/
def ReadsAs (d : Draft) (u t : Term) : Prop := u.substitute d.inlined = t.substitute d.inlined

theorem Before.refl (d : Draft) : d.Before d := ⟨List.Subset.refl _, fun _ _ h => h⟩

theorem Before.trans {d'' : Draft} (h : d.Before d') (h' : d'.Before d'') : d.Before d'' :=
  ⟨List.Subset.trans h.bound h'.bound, fun v t ht => h'.inlined v t (h.inlined v t ht)⟩

theorem Before.emitted (d : Draft) (step : Step) : d.Before (d.emitted step) :=
  ⟨fun _ hv => mem_bound_emitted.2 (.inl hv), fun _ _ ht => ht⟩

theorem Before.withNext (d : Draft) (n : Nat) : d.Before { d with next := n } :=
  ⟨List.Subset.refl _, fun _ _ h => h⟩

theorem Before.inlining {v : Var} {t : Term} (hv : d.inlined.get? v = none) :
    d.Before (d.inlining v t) := by
  refine ⟨List.Subset.refl _, fun w s hs => ?_⟩
  rw [Draft.inlining, Assoc.get?_put, if_neg]
  · exact hs
  · rintro rfl
    rw [hv] at hs
    cases hs

namespace Settled

theorem start {next : Nat} (h : old ≤ next) : ({ next } : Draft).Settled old :=
  ⟨nofun, nofun, nofun, h⟩

theorem inlined_of_bound (h : d.Settled old) {v : Var} (hv : v ∈ d.bound) :
    d.inlined.get? v = none := by
  by_contra hn
  obtain ⟨t, ht⟩ := Option.ne_none_iff_exists'.1 hn
  exact h.unbound v t ht hv

theorem inlined_of_new (h : d.Settled old) {v : Var} (hv : d.next ≤ v.number) :
    d.inlined.get? v = none := by
  by_contra hn
  obtain ⟨t, ht⟩ := Option.ne_none_iff_exists'.1 hn
  have := h.number v t ht
  have := h.old_le
  omega

/-- No variable of a term as it reads stands for anything. -/
theorem inlined_of_mem (h : d.Settled old) {t : Term} {w : Var}
    (hw : w ∈ (t.substitute d.inlined).occurrences) : d.inlined.get? w = none := by
  obtain ⟨v, _, hw⟩ := Term.mem_occurrences_substitute.1 hw
  cases hv : d.inlined.get? v with
  | none =>
    rw [hv] at hw
    obtain rfl := List.mem_singleton.1 hw
    exact hv
  | some s =>
    rw [hv] at hw
    exact h.inlined_of_bound (h.bound v s hv hw)

/-- **A term may be read in between.** -/
theorem substitute_substitute (h : d.Settled old) (h' : d'.Settled old) (before : d.Before d')
    (t : Term) : (t.substitute d.inlined).substitute d'.inlined = t.substitute d'.inlined := by
  refine Term.substitute_substitute fun v _ => ?_
  cases hv : d.inlined.get? v with
  | none => rw [Term.substitute, hv, Option.getD_none]
  | some s =>
    have kept : s.substitute d'.inlined = s := Term.substitute_eq_self fun w hw =>
      h'.inlined_of_bound (before.bound (h.bound v s hv hw))
    rw [Term.substitute, hv, Option.getD_some, kept, Term.substitute, before.inlined v s hv,
      Option.getD_some]

/-- A term reads as what it reads as. -/
theorem reads_substitute (h : d.Settled old) (t : Term) : d.ReadsAs (t.substitute d.inlined) t :=
  h.substitute_substitute h (.refl d) t

/-- **A variable that is not bound** stands for nothing. -/
theorem inlined_of_unbound (h : d.Settled old) {v : Var}
    (free : ((Term.var v).substitute d.inlined).isBoundBy d.bound = false) :
    d.inlined.get? v = none ∧ v ∉ d.bound := by
  cases hv : d.inlined.get? v with
  | none =>
    refine ⟨rfl, fun hb => ?_⟩
    rw [Term.substitute, hv, Option.getD_none] at free
    simp [Term.isBoundBy, Term.occurrences, hb] at free
  | some s =>
    rw [Term.substitute, hv, Option.getD_some] at free
    have bound : s.isBoundBy d.bound = true :=
      List.all_eq_true.2 fun w hw => List.contains_iff_mem.2 (h.bound v s hv hw)
    cases bound.symm.trans free

/-- It reads as itself. -/
theorem substitute_var (h : d.Settled old) {v : Var}
    (free : ((Term.var v).substitute d.inlined).isBoundBy d.bound = false) :
    (Term.var v).substitute d.inlined = .var v := by
  rw [Term.substitute, (h.inlined_of_unbound free).1, Option.getD_none]

/-- More variables may be numbered. -/
theorem withNext (h : d.Settled old) {n : Nat} (hn : d.next ≤ n) :
    ({ d with next := n } : Draft).Settled old :=
  ⟨h.bound, h.unbound, h.number, Nat.le_trans h.old_le hn⟩

/-- **A step may be added** if no variable that it binds stands for something. -/
theorem emit (h : d.Settled old) {step : Step}
    (unused : ∀ v ∈ step.vars, d.inlined.get? v = none) : (d.emitted step).Settled old where
  bound v t ht := List.Subset.trans (h.bound v t ht) fun _ hw => mem_bound_emitted.2 (.inl hw)
  unbound v t ht hv := by
    rcases mem_bound_emitted.1 hv with hv | ⟨_, hv⟩
    · exact h.unbound v t ht hv
    · exact nomatch (unused v hv).symm.trans ht
  number := h.number
  old_le := h.old_le

/-- **Terms as they read may be compared.** -/
theorem check (h : d.Settled old) (l r : Term) (negated : Bool) :
    (d.emitted (.check (l.substitute d.inlined) (r.substitute d.inlined) negated)).Settled old :=
  h.emit fun v hv => by
    rcases List.mem_append.1 (List.mem_eraseDups.1 hv) with hv | hv <;> exact h.inlined_of_mem hv

/-- **A variable may stand for a bound term** if it is of the rule and not bound itself. -/
theorem inline (h : d.Settled old) {v : Var} {t : Term} (ht : t.occurrences ⊆ d.bound)
    (hv : v ∉ d.bound) (number : v.number < old) : (d.inlining v t).Settled old := by
  have cases {w : Var} {s : Term} (hs : (d.inlining v t).inlined.get? w = some s) :
      v = w ∧ t = s ∨ d.inlined.get? w = some s := by
    rw [inlining, Assoc.get?_put] at hs
    split at hs
    · next e => exact .inl ⟨e, Option.some.inj hs⟩
    · exact .inr hs
  refine ⟨fun w s hs => ?_, fun w s hs => ?_, fun w s hs => ?_, h.old_le⟩ <;>
    rcases cases hs with ⟨rfl, rfl⟩ | hs
  · exact ht
  · exact h.bound w s hs
  · exact hv
  · exact h.unbound w s hs
  · exact number
  · exact h.number w s hs

end Settled

namespace ReadsAs

/-- **What reads the same** does so from then on. -/
theorem later {u t : Term} (hr : d.ReadsAs u t) (h : d.Settled old) (h' : d'.Settled old)
    (before : d.Before d') : d'.ReadsAs u t := by
  rw [ReadsAs, ← h.substitute_substitute h' before u, hr, h.substitute_substitute h' before t]

theorem forall₂_later {us ts : List Term} (hr : List.Forall₂ d.ReadsAs us ts) (h : d.Settled old)
    (h' : d'.Settled old) (before : d.Before d') : List.Forall₂ d'.ReadsAs us ts :=
  hr.imp fun _ _ hr => hr.later h h' before

end ReadsAs

theorem Settled.forall₂_reads (h : d.Settled old) (ts : List Term) :
    List.Forall₂ d.ReadsAs (ts.map (·.substitute d.inlined)) ts := by
  induction ts with
  | nil => exact .nil
  | cons t ts ih => exact .cons (h.reads_substitute t) ih

end Draft

namespace Compile

open Draft

variable {rule : Rule} {mode : Unification} {old : Nat} {d d' : Draft}

/-! ## What a goal owes -/

/-- **What a goal owes** for the terms `ts`, and for other terms that read the same: equations of
the same invented variables. -/
structure Owes (d : Draft) (ts : List Term) (args : List Arg) (owed owed' : List (Var × Term)) :
    Prop where
  terms : (owed.map Prod.snd).Sublist ts
  binders : owed'.map Prod.fst = owed.map Prod.fst
  reads : List.Forall₂ d.ReadsAs (owed'.map Prod.snd) (owed.map Prod.snd)
  free : ∀ y ∈ owed.map Prod.fst, .free y ∈ args ∧ d.next ≤ y.number
  vars : ∀ arg ∈ args, ∀ v ∈ arg.term.occurrences,
    d.next ≤ v.number ∨ ∃ t : Term, v ∈ (t.substitute d.inlined).occurrences

namespace Owes

variable {t u : Term} {ts : List Term} {arg : Arg} {args : List Arg}
  {owed owed' rest rest' : List (Var × Term)}

theorem keep
    (h : ∀ v ∈ arg.term.occurrences, ∃ t : Term, v ∈ (t.substitute d.inlined).occurrences) :
    Owes d [t] [arg] [] [] := by
  refine ⟨List.nil_sublist _, rfl, .nil, nofun, fun a ha v hv => .inr ?_⟩
  obtain rfl := List.mem_singleton.1 ha
  exact h v hv

theorem invent (h : d.ReadsAs u t) :
    Owes d [t] [.free (.fresh d.next)] [(.fresh d.next, t)] [(.fresh d.next, u)] := by
  refine ⟨.refl _, rfl, .cons h .nil, fun y hy => ?_, fun a ha v hv => .inl ?_⟩
  · obtain rfl := List.mem_singleton.1 hy
    exact ⟨List.mem_singleton.2 rfl, Nat.le_refl _⟩
  · obtain rfl := List.mem_singleton.1 ha
    obtain rfl := List.mem_singleton.1 hv
    exact Nat.le_refl _

theorem append {n : Nat} (h : Owes d [t] [arg] owed owed') (hn : d.next ≤ n)
    (h' : Owes { d with next := n } ts args rest rest') :
    Owes d (t :: ts) (arg :: args) (owed ++ rest) (owed' ++ rest') where
  terms := by
    rw [List.map_append]
    exact h.terms.append h'.terms
  binders := by rw [List.map_append, List.map_append, h.binders, h'.binders]
  reads := by
    rw [List.map_append, List.map_append]
    exact List.rel_append h.reads h'.reads
  free y hy := by
    rw [List.map_append] at hy
    rcases List.mem_append.1 hy with hy | hy
    · obtain ⟨hfree, number⟩ := h.free y hy
      exact ⟨List.mem_cons.2 (.inl (List.mem_singleton.1 hfree)), number⟩
    · obtain ⟨hfree, number⟩ := h'.free y hy
      exact ⟨List.mem_cons_of_mem _ hfree, Nat.le_trans hn number⟩
  vars a ha v hv := by
    rcases List.mem_cons.1 ha with rfl | ha
    · exact h.vars a (List.mem_singleton.2 rfl) v hv
    · exact (h'.vars a ha v hv).imp_left (Nat.le_trans hn)

end Owes

/-- **An argument** is looked at as it reads; only the equation owed tells how it is written. -/
theorem exists_argument_owes (rule : Rule) (met : List Var) {t u : Term} (h : d.ReadsAs u t) :
    ∃ arg met' owed owed',
      argument rule met t d = .ok (arg, met', owed) { d with next := d.next + owed.length } ∧
      argument rule met u d = .ok (arg, met', owed') { d with next := d.next + owed.length } ∧
      Owes d [t] [arg] owed owed' := by
  have invented : Owes d [t] [.free (.fresh d.next)] [(.fresh d.next, t)] [(.fresh d.next, u)] :=
    .invent h
  unfold argument
  rw [Outcome.bind_of_ok (current_eq t), Outcome.bind_of_ok (isBound_eq _),
    Outcome.bind_of_ok (current_ok_iff.2 ⟨h.symm, rfl⟩), Outcome.bind_of_ok (isBound_eq _)]
  cases (t.substitute d.inlined).isBoundBy d.bound with
  | true => exact ⟨_, _, [], [], rfl, rfl, .keep fun v hv => ⟨t, hv⟩⟩
  | false =>
    cases hv : (t.substitute d.inlined).asVar? with
    | none => exact ⟨_, _, _, _, rfl, rfl, invented⟩
    | some v =>
      have read : t.substitute d.inlined = .var v := Term.eq_var_of_asVar? hv
      by_cases hm : v ∉ met
      · simp only [if_pos hm]
        refine ⟨_, _, [], [], rfl, rfl, .keep fun w hw => ⟨t, ?_⟩⟩
        rw [read]
        split at hw <;> exact hw
      · simp only [if_neg hm]
        exact ⟨_, _, _, _, rfl, rfl, invented⟩

theorem arguments_cons {met met' : List Var} {t : Term} {ts : List Term} {arg : Arg}
    {args : List Arg} {owed rest : List (Var × Term)} {d'' : Draft}
    (first : argument rule met t d = .ok (arg, met', owed) d')
    (later : arguments rule met' ts d' = .ok (args, rest) d'') :
    arguments rule met (t :: ts) d = .ok (arg :: args, owed ++ rest) d'' := by
  rw [arguments]
  exact (Outcome.bind_of_ok first).trans (Outcome.bind_of_ok later)

/-- **So are all arguments of a goal.** -/
theorem exists_arguments_owes (rule : Rule) {ts : List Term} : ∀ {us : List Term} (met : List Var)
    {d : Draft}, List.Forall₂ d.ReadsAs us ts → ∃ args owed owed',
      arguments rule met ts d = .ok (args, owed) { d with next := d.next + owed.length } ∧
      arguments rule met us d = .ok (args, owed') { d with next := d.next + owed.length } ∧
      Owes d ts args owed owed' := by
  induction ts with
  | nil =>
    rintro us met d ⟨⟩
    exact ⟨[], [], [], rfl, rfl, .refl _, rfl, .nil, nofun, nofun⟩
  | cons t ts ih =>
    rintro us met d (_ | ⟨hu, hus⟩)
    obtain ⟨arg, met', owed, owed', first, first', owes⟩ := exists_argument_owes rule met hu
    obtain ⟨args, rest, rest', later, later', owes'⟩ :=
      @ih _ met' { d with next := d.next + owed.length } hus
    refine ⟨arg :: args, owed ++ rest, owed' ++ rest', ?_, ?_,
      owes.append (Nat.le_add_right ..) owes'⟩
    · rw [List.length_append, ← Nat.add_assoc]
      exact arguments_cons first later
    · rw [List.length_append, ← Nat.add_assoc]
      exact arguments_cons first' later'

end Compile

end Datalog
