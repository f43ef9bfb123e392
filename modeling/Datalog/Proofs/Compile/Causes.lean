import Datalog.Meaning.Refusal
import Datalog.Proofs.Compile.Body

/-!
# Proofs/Compile/Causes — what each part of compilation is refused for

Compilation asks of a term only whether it is bound, and that is whether it has been seen
(`Draft.Ready.isBound_iff`): what variables stand for, which of them are ignored and how the
invented ones are numbered makes no difference.  So each part of compilation is refused exactly for
the cause that the written literal shows (`Compile.causeOf_literal`).
-/

namespace Datalog

/-- **A walk through a list stops at an entry**, after all the entries before it. -/
theorem Outcome.forM_error_iff {ε σ α : Type} {f : α → EStateM ε σ PUnit} {as : List α} {s t : σ}
    {e : ε} : as.forM f s = .error e t ↔ ∃ (i : Nat) (a : α) (u : σ), as[i]? = some a ∧
      (as.take i).forM f s = .ok () u ∧ f a u = .error e t := by
  induction as generalizing s with
  | nil =>
    refine ⟨(fun h => nomatch h), ?_⟩
    rintro ⟨_, _, _, ⟨⟩, _⟩
  | cons a as ih =>
    change (f a >>= fun _ => as.forM f) s = _ ↔ _
    rw [bind_error_iff]
    constructor
    · rintro (h | ⟨⟨⟩, u, first, h⟩)
      · exact ⟨0, a, s, rfl, rfl, h⟩
      · obtain ⟨i, b, u', hb, before, h⟩ := ih.1 h
        exact ⟨i + 1, b, u', hb, bind_ok_iff.2 ⟨(), u, first, before⟩, h⟩
    · rintro ⟨i, b, u, hb, before, h⟩
      cases i with
      | zero =>
        obtain rfl := Option.some.inj hb
        obtain ⟨_, rfl⟩ := pure_ok_iff.1 before
        exact .inl h
      | succ i =>
        obtain ⟨⟨⟩, u', first, before⟩ := bind_ok_iff.1 before
        exact .inr ⟨(), u', first, ih.2 ⟨i, b, u, hb, before, h⟩⟩

namespace Compile

open Draft

/-- Why an action is refused, if it is. -/
def causeOf {α : Type} : EStateM.Result Rejection Draft α → Option Cause
  | .ok .. => none
  | .error e _ => some e.cause

section

variable {α β : Type} {x : Compile α} {d d' : Draft}

/-- The rest of a computation decides, once the first part has ended well. -/
theorem causeOf_bind_ok {f : α → Compile β} {a : α} (h : x d = .ok a d') :
    causeOf ((x >>= f) d) = causeOf (f a d') := by
  cases hf : f a d' with
  | ok b d'' => rw [Outcome.bind_ok_iff.2 ⟨a, d', h, hf⟩]
  | error e d'' => rw [Outcome.bind_error_iff.2 (.inr ⟨a, d', h, hf⟩)]

/-- **One action after the other.** -/
theorem causeOf_seq {f : α → Compile β} {c c' : Option Cause} (hx : causeOf (x d) = c)
    (hf : ∀ a d', x d = .ok a d' → causeOf (f a d') = c') :
    causeOf ((x >>= f) d) = c.or c' := by
  cases h : x d with
  | ok a d' =>
    rw [h] at hx
    obtain rfl : none = c := hx
    rw [causeOf_bind_ok h, hf a d' h, Option.none_or]
  | error e d' =>
    rw [h] at hx
    obtain rfl : some e.cause = c := hx
    rw [Outcome.bind_error_iff.2 (.inl h), Option.some_or]
    rfl

end

variable {single : Var → Prop} {old : Nat} {rule : Rule} {mode : Unification} {seen : List Var}
  {d d' : Draft}

/-- **A pattern is refused for what is wrong with it.** -/
def PatternRefused (single : Var → Prop) (old : Nat) (rule : Rule) (mode : Unification)
    (t : Term) : Prop :=
  ∀ {seen : List Var} {d : Draft} {l : Literal} {u : Term}, d.Ready single old seen t.occurrences →
    t.isBoundBy seen = false → u.occurrences ⊆ d.written →
    causeOf (bindPattern rule mode l u t d) = t.patternCause seen

theorem causeOf_equateBinders {args : List Term}
    (ih : ∀ a ∈ args, PatternRefused single old rule mode a) :
    ∀ {ys : List Var} {seen : List Var} {d : Draft}, ys.length = args.length →
      d.Ready single old seen (Term.occurrencesOf args) → ys ⊆ d.written →
      causeOf (equateBinders rule mode ys args d) = Term.patternsCause seen args := by
  induction args with
  | nil =>
    intro ys seen d hlen _ _
    obtain rfl := List.length_eq_zero_iff.1 hlen
    rw [equateBinders.eq_def]
    rfl
  | cons t ts ihts =>
    intro ys seen d hlen ready hys
    cases ys with
    | nil => exact absurd hlen (by simp)
    | cons y ys =>
      obtain ⟨hy, hys⟩ := List.cons_subset.1 hys
      have rest {d' : Draft} (hd' : d'.Sound single old (seen ++ t.occurrences))
          (written : d.written ⊆ d'.written) :
          causeOf (equateBinders rule mode ys ts d') =
            Term.patternsCause (seen ++ t.occurrences) ts :=
        ihts (fun a ha => ih a (List.mem_cons_of_mem _ ha)) (Nat.succ.inj hlen) (ready.right hd')
          fun v hv => written (hys hv)
      have hu : (Term.var y).occurrences ⊆ d.written := fun v hv => List.mem_singleton.1 hv ▸ hy
      rw [equateBinders, causeOf_bind_ok (current_eq _), causeOf_bind_ok (isBound_eq _),
        ready.left.isBound_iff, Term.patternsCause]
      cases bound : t.isBoundBy seen with
      | true =>
        refine causeOf_seq rfl fun _ d' first => ?_
        obtain rfl := emit_ok_iff.1 first
        refine rest (ready.sound.check false hu (ready.left.occurrences_subset bound)
          (ready.left.knows bound) ready.left.old) ?_
        rw [written_emitted]
        exact List.subset_append_left ..
      | false =>
        refine causeOf_seq (ih t (List.mem_cons_self ..) ready.left bound hu) fun _ d' first => ?_
        have learns := patternLearns (s := .void) t ready.left bound hu first
        obtain ⟨new, adds⟩ := learns.adds
        exact rest learns.sound (adds.written ▸ List.subset_append_left ..)

theorem patternRefused (t : Term) : PatternRefused single old rule mode t := by
  induction t with
  | var v =>
    intro seen d l u _ _ _
    rw [bindPattern, Term.patternCause]
    split <;> rfl
  | ctor f args ih =>
    intro seen d l u ready _ hu
    rw [bindPattern, causeOf_bind_ok (inventAll_ok_iff.2 ⟨rfl, rfl⟩),
      causeOf_bind_ok ((emit_ok_iff (u := ())).2 rfl), Term.patternCause]
    have sound := ready.sound.destruct f args.length hu
    refine causeOf_equateBinders ih (Var.length_freshes ..) ⟨sound, ready.once, ready.old⟩ ?_
    rw [written_emitted]
    exact List.subset_append_right ..
  | lit | call =>
    intro seen d l u _ _ _
    rw [bindPattern, Term.patternCause]
    rfl

theorem causeOf_equateAll {ls : List Term}
    (ih : ∀ l ∈ ls, ∀ {r : Term} {seen : List Var} {d : Draft},
      d.Ready single old seen (l.occurrences ++ r.occurrences) →
      causeOf (equate rule mode l r d) = l.equationCause seen r) :
    ∀ {rs : List Term} {seen : List Var} {d : Draft},
      d.Ready single old seen (Term.occurrencesOf ls ++ Term.occurrencesOf rs) →
      causeOf (equateAll rule mode ls rs d) = Term.equationsCause seen ls rs := by
  induction ls with
  | nil =>
    intro rs seen d _
    rw [Term.equationsCause.eq_def, equateAll.eq_def]
    rfl
  | cons l ls ihls =>
    intro rs seen d ready
    cases rs with
    | nil =>
      rw [Term.equationsCause.eq_def, equateAll.eq_def]
      rfl
    | cons r rs =>
      have perm : (Term.occurrencesOf (l :: ls) ++ Term.occurrencesOf (r :: rs)).Perm
          ((l.occurrences ++ r.occurrences) ++
            (Term.occurrencesOf ls ++ Term.occurrencesOf rs)) := by
        refine List.perm_iff_count.2 fun v => ?_
        simp only [Term.occurrencesOf, List.count_append]
        omega
      have ready := ready.perm perm
      rw [equateAll, Term.equationsCause]
      refine causeOf_seq (ih l (List.mem_cons_self ..) ready.left) fun _ d' first => ?_
      refine ihls (fun a ha => ih a (List.mem_cons_of_mem _ ha)) (ready.right ?_)
      exact (equate_learns (s := .void) l ready.left first).sound

/-- **An equation is refused for what is wrong with it.** -/
theorem causeOf_equate (l : Term) : ∀ {r : Term} {seen : List Var} {d : Draft},
    d.Ready single old seen (l.occurrences ++ r.occurrences) →
    causeOf (equate rule mode l r d) = l.equationCause seen r := by
  -- only constructors on both sides lead to smaller equations
  have ways {l r : Term} {seen : List Var} {d : Draft}
      (ready : d.Ready single old seen (l.occurrences ++ r.occurrences))
      (apart : ∀ f as g bs, l = .ctor f as → r = .ctor g bs →
        causeOf (equateAll rule mode as bs d) = Term.equationsCause seen as bs) :
      causeOf (equate rule mode l r d) = l.equationCause seen r := by
    unfold equate
    rw [causeOf_bind_ok (current_eq l), causeOf_bind_ok (current_eq r),
      causeOf_bind_ok (isBound_eq _), causeOf_bind_ok (isBound_eq _),
      ready.left.isBound_iff, ready.skip.isBound_iff, Term.equationCause.eq_def]
    cases hl : l.isBoundBy seen <;> cases hr : r.isBoundBy seen
    · cases l with
      | ctor f as =>
        cases r with
        | ctor g bs =>
          dsimp only
          split
          · exact apart _ _ _ _ rfl rfl
          · rfl
        | var | lit | call => rfl
      | var | lit | call => cases r <;> rfl
    · exact patternRefused l ready.left hl (ready.skip.occurrences_subset hr)
    · exact patternRefused r ready.skip hr (ready.left.occurrences_subset hl)
    · rfl
  induction l with
  | ctor f as ih =>
    intro r seen d ready
    refine ways ready ?_
    rintro _ _ g bs ⟨⟩ rfl
    exact causeOf_equateAll ih ready
  | var | lit | call =>
    intro r seen d ready
    refine ways ready ?_
    rintro _ _ _ _ ⟨⟩

theorem causeOf_distinguish {l r : Term}
    (ready : d.Ready single old seen (l.occurrences ++ r.occurrences)) :
    causeOf (distinguish rule l r d) =
      if l.isBoundBy seen && r.isBoundBy seen then none else some .unboundDisequation := by
  unfold distinguish
  rw [causeOf_bind_ok (current_eq l), causeOf_bind_ok (current_eq r),
    causeOf_bind_ok (isBound_eq _), causeOf_bind_ok (isBound_eq _),
    ready.left.isBound_iff, ready.skip.isBound_iff]
  split <;> rfl

/-! ## Atoms -/

/-- No argument is refused. -/
theorem exists_argument (rule : Rule) (met : List Var) (t : Term) (d : Draft) :
    ∃ r d', argument rule met t d = .ok r d' := by
  have after {α β : Type} {x : Compile α} {f : α → Compile β} {a : α} {d d' : Draft}
      (h : x d = .ok a d') (hf : ∃ r d'', f a d' = .ok r d'') : ∃ r d'', (x >>= f) d = .ok r d'' := by
    obtain ⟨r, d'', hf⟩ := hf
    exact ⟨r, d'', Outcome.bind_ok_iff.2 ⟨a, d', h, hf⟩⟩
  unfold argument
  refine after (current_eq _) (after (isBound_eq _) ?_)
  split
  · exact ⟨_, _, rfl⟩
  · cases (t.substitute d.inlined).asVar? with
    | none => exact ⟨_, _, rfl⟩
    | some v =>
      dsimp only
      split <;> exact ⟨_, _, rfl⟩

theorem exists_arguments (rule : Rule) (ts : List Term) : ∀ (met : List Var) (d : Draft),
    ∃ r d', arguments rule met ts d = .ok r d' := by
  induction ts with
  | nil => exact fun met d => ⟨_, _, rfl⟩
  | cons t ts ih =>
    intro met d
    obtain ⟨⟨arg, met', owed⟩, d₁, first⟩ := exists_argument rule met t d
    obtain ⟨r, d₂, rest⟩ := ih met' d₁
    exact ⟨_, _, Outcome.bind_ok_iff.2 ⟨_, _, first, Outcome.bind_ok_iff.2 ⟨_, _, rest, rfl⟩⟩⟩

/-- A goal has a free argument if the atom mentions more than has been seen and single variables. -/
theorem Arranged.any_isFree {σ : Bindings} {met : List Var} {n : Nat} {ts direct : List Term}
    {args : List Arg} {owed : List (Var × Term)}
    (h : Arranged (Single rule) seen σ met n ts args direct owed) : args.any Arg.isFree =
      ts.any fun t => !(t.isBoundBy seen || t.asVar?.any rule.isSingleton) := by
  induction h with
  | nil => rfl
  | bound ht _ _ ih =>
    rw [List.any_cons, List.any_cons, ih, ht]
    rfl
  | @free _ _ v _ _ _ _ hs _ hv _ ih =>
    have unseen : (Term.var v).isBoundBy seen = false := by
      simpa [Term.isBoundBy, Term.occurrences] using hs
    rw [List.any_cons, List.any_cons, ih, unseen, Term.asVar?, Option.any_some,
      Bool.eq_false_iff.2 hv]
    rfl
  | ignored _ hv _ ih =>
    rw [List.any_cons, List.any_cons, ih, Term.asVar?, Option.any_some, hv, Bool.or_true]
    rfl
  | @invented _ _ t _ _ _ _ ht hv _ ih =>
    rw [List.any_cons, List.any_cons, ih, ht]
    cases t with
    | var v =>
      rw [Term.asVar?, Option.any_some, Bool.eq_false_iff.2 (hv v rfl)]
      rfl
    | lit | ctor | call => rfl

/-- **An atom is refused for what is wrong with it.** -/
theorem causeOf_search {delta : Bool} {a : Atom}
    (ready : d.Ready (Single rule) old seen a.occurrences) :
    causeOf (search rule mode delta a d) = a.cause rule.isSingleton seen := by
  rw [Atom.occurrences, ← Term.occurrencesOf_eq_flatMap] at ready
  have once : Once (Single rule) ([] ++ Term.occurrencesOf a.args) :=
    ready.once.of_count_le fun v => by
      rw [List.nil_append, List.count_append]
      omega
  obtain ⟨⟨args, owed⟩, d₁, hargs⟩ := exists_arguments rule a.args [] d
  obtain ⟨direct, arranged, places, rfl⟩ := arguments_arranged ready once hargs
  unfold search
  rw [causeOf_bind_ok (mapM_current_eq _), Atom.cause]
  dsimp only
  split
  · next arity =>
    split
    · rfl
    · rw [causeOf_bind_ok hargs, arranged.any_isFree]
      dsimp only
      split
      · rfl
      · next safe =>
        have nothing (negated : a.negated = true) : owed = [] ∧ args.flatMap Arg.writes = [] := by
          rw [negated, Bool.true_and, ← arranged.any_isFree, Bool.not_eq_true] at safe
          exact arranged.owed_eq_nil safe
        let g : Goal := { relation := a.relation, args, negated := a.negated, delta }
        have ready' := (ready.perm arranged.perm).withNext (Nat.le_add_right d.next owed.length)
        have sound := ready'.sound.emit (fun v hv => List.mem_append_left _ hv)
          (goal_takes (g := g) ready arranged fun negated => (nothing negated).2)
        rw [causeOf_bind_ok ((emit_ok_iff (u := ())).2 rfl), places]
        refine causeOf_equateBinders (fun t _ => patternRefused t)
          (by rw [List.length_map, List.length_map]) (ready'.right sound) fun v hv => ?_
        rw [written_emitted, Step.writes]
        refine List.mem_append_right _ ?_
        split
        · next negated =>
          rw [(nothing negated).1] at hv
          cases hv
        · exact arranged.owed_subset hv
  · rfl

/-! ## Rules -/

theorem causeOf_literal {delta : Bool} {l : Literal}
    (ready : d.Ready (Single rule) old seen l.occurrences) :
    causeOf (literal rule mode delta l d) = l.cause rule.isSingleton seen := by
  cases l with
  | atom a => exact causeOf_search ready
  | unify l r negated =>
    cases negated with
    | false => exact causeOf_equate l ready
    | true => exact causeOf_distinguish ready

/-- **A body that compiles shows nothing wrong.** -/
theorem refusal_of_literals {ls : List (Literal × Bool)} : ∀ {seen : List Var} {i : Nat}
    {d d' : Draft}, d.Ready (Single rule) old seen (ls.flatMap fun e => e.1.occurrences) →
    (ls.forM fun e => literal rule mode e.2 e.1) d = .ok () d' →
    Literal.refusal rule.isSingleton seen i (ls.map Prod.fst) = none := by
  induction ls with
  | nil => exact fun _ _ => rfl
  | cons e ls ih =>
    intro seen i d d' ready ok
    change (literal rule mode e.2 e.1 >>= fun _ => ls.forM _) d = _ at ok
    obtain ⟨⟨⟩, d₁, first, ok⟩ := Outcome.bind_ok_iff.1 ok
    rw [List.flatMap_cons] at ready
    have fine : causeOf (literal rule mode e.2 e.1 d) = _ := causeOf_literal ready.left
    rw [first] at fine
    rw [List.map_cons, Literal.refusal, ← fine]
    exact ih (ready.right (literal_sound ready.left first)) ok

/-- **The literal that is refused is the first that shows something wrong.** -/
theorem refusal_of_literal_error {ls : List (Literal × Bool)} : ∀ {seen : List Var} {i k : Nat}
    {d d₁ d' : Draft} {x : Literal × Bool} {e : Rejection},
    d.Ready (Single rule) old seen (ls.flatMap fun e => e.1.occurrences) → ls[k]? = some x →
    ((ls.take k).forM fun e => literal rule mode e.2 e.1) d = .ok () d₁ →
    literal rule mode x.2 x.1 d₁ = .error e d' →
    Literal.refusal rule.isSingleton seen i (ls.map Prod.fst) =
      some (.literal (i + k), e.cause) := by
  induction ls with
  | nil => exact fun _ h => by cases h
  | cons o ls ih =>
    intro seen i k d d₁ d' x e ready hx ok error
    rw [List.flatMap_cons] at ready
    have first : causeOf (literal rule mode o.2 o.1 d) = _ := causeOf_literal ready.left
    rw [List.map_cons, Literal.refusal]
    cases k with
    | zero =>
      obtain rfl := Option.some.inj hx
      obtain ⟨_, rfl⟩ := Outcome.pure_ok_iff.1 ok
      rw [error] at first
      rw [← first]
      rfl
    | succ k =>
      rw [List.take_succ_cons] at ok
      change (literal rule mode o.2 o.1 >>= fun _ => (ls.take k).forM _) d = _ at ok
      obtain ⟨⟨⟩, d₂, before, ok⟩ := Outcome.bind_ok_iff.1 ok
      rw [before] at first
      rw [← first, Nat.add_comm k, ← Nat.add_assoc]
      exact ih (ready.right (literal_sound ready.left before)) hx ok error

/-- **The head is refused if it has variables that the body does not mention.** -/
theorem causeOf_head {seen : List Var} (ready : d.Ready (Single rule) old seen rule.head.occurrences) :
    causeOf (head rule d) = if rule.head.occurrences.all seen.contains then none
      else some .unboundHead := by
  rw [Atom.occurrences, ← Term.occurrencesOf_eq_flatMap] at ready
  have unbound : (((rule.head.args.map (·.substitute d.inlined)).flatMap Term.vars).filter
      (!d.bound.contains ·)).eraseDups.isEmpty = rule.head.occurrences.all seen.contains := by
    rw [Bool.eq_iff_iff, List.isEmpty_iff, List.eq_nil_iff_forall_not_mem]
    have bound : (∀ t ∈ rule.head.args, (t.substitute d.inlined).isBoundBy d.bound = true) ↔
        ∀ t ∈ rule.head.args, t.isBoundBy seen = true :=
      forall₂_congr fun t ht => by rw [(ready.of_mem ht).isBound_iff]
    rw [Atom.occurrences, List.all_flatMap, List.all_eq_true]
    refine Iff.trans ⟨fun h t ht => ?_, fun h v hv => ?_⟩ bound
    · refine List.all_eq_true.2 fun v hv => ?_
      by_contra hn
      refine h v (List.mem_eraseDups.2 (List.mem_filter.2 ⟨?_, by simpa using hn⟩))
      exact List.mem_flatMap.2 ⟨_, List.mem_map_of_mem ht, List.mem_eraseDups.2 hv⟩
    · obtain ⟨hv, hn⟩ := List.mem_filter.1 (List.mem_eraseDups.1 hv)
      obtain ⟨u, hu, hv⟩ := List.mem_flatMap.1 hv
      obtain ⟨t, ht, rfl⟩ := List.mem_map.1 hu
      rw [List.all_eq_true.1 (h t ht) v (List.mem_eraseDups.1 hv)] at hn
      cases hn
  unfold head
  rw [causeOf_bind_ok (mapM_current_eq _), Outcome.get_bind]
  dsimp only
  rw [unbound]
  split <;> rfl

end Compile

end Datalog
