import Datalog.Meaning.Renaming
import Datalog.Proofs.Compile.Refusal

/-!
# Proofs/Compile/Names — two runs in step

Compilation tells variables apart and does nothing else with them.  So compiling a rule and
compiling the renamed rule go in step: the drafts correspond (`Draft.Renames`), and every action
ends alike on both sides (`Compile.Alike`).
-/

namespace Datalog

variable {ρ : Var → Var}

/-! ## Renamed terms -/

namespace Term

theorem occurrences_rename (t : Term) : (t.rename ρ).occurrences = t.occurrences.map ρ := by
  have all {args : List Term}
      (ih : ∀ a ∈ args, (a.rename ρ).occurrences = a.occurrences.map ρ) :
      occurrencesOf (renameAll ρ args) = (occurrencesOf args).map ρ := by
    rw [renameAll_eq_map, occurrencesOf_eq_flatMap, occurrencesOf_eq_flatMap, List.flatMap_map,
      List.map_flatMap]
    exact List.flatMap_congr ih
  induction t with
  | var | lit => rfl
  | ctor f args ih | call f args ih => exact all ih

theorem isBoundBy_rename {bound bound' : List Var} (h : ∀ v, ρ v ∈ bound' ↔ v ∈ bound) (t : Term) :
    (t.rename ρ).isBoundBy bound' = t.isBoundBy bound := by
  rw [isBoundBy, isBoundBy, occurrences_rename, List.all_map, Bool.eq_iff_iff, List.all_eq_true,
    List.all_eq_true]
  exact forall₂_congr fun v _ => by
    rw [Function.comp_apply, List.contains_iff_mem, List.contains_iff_mem, h v]

theorem asVar?_rename (t : Term) : (t.rename ρ).asVar? = t.asVar?.map ρ := by
  cases t <;> rfl

/-- **Substituting commutes with renaming.** -/
theorem substitute_rename {σ σ' : Bindings}
    (h : ∀ v, σ'.get? (ρ v) = (σ.get? v).map (rename ρ)) (t : Term) :
    (t.rename ρ).substitute σ' = (t.substitute σ).rename ρ := by
  have all {args : List Term}
      (ih : ∀ a ∈ args, (a.rename ρ).substitute σ' = (a.substitute σ).rename ρ) :
      substituteAll σ' (renameAll ρ args) = renameAll ρ (substituteAll σ args) := by
    simp only [substituteAll_eq_map, renameAll_eq_map, List.map_map]
    exact List.map_congr_left ih
  induction t with
  | var v =>
    rw [rename, substitute, substitute, h]
    cases σ.get? v <;> rfl
  | lit => rfl
  | ctor f args ih | call f args ih =>
    rw [rename, substitute, substitute, rename, all ih]

end Term

theorem Atom.occurrences_rename (a : Atom) : (a.rename ρ).occurrences = a.occurrences.map ρ := by
  rw [occurrences, occurrences, rename, List.flatMap_map, List.map_flatMap]
  exact List.flatMap_congr fun t _ => t.occurrences_rename

theorem Literal.occurrences_rename (l : Literal) :
    (l.rename ρ).occurrences = l.occurrences.map ρ := by
  cases l with
  | atom a => exact a.occurrences_rename
  | unify l r negated =>
    rw [occurrences, rename, occurrences, List.map_append, l.occurrences_rename,
      r.occurrences_rename]

theorem Rule.occurrences_rename (rule : Rule) :
    (rule.rename ρ).occurrences = rule.occurrences.map ρ := by
  rw [occurrences, occurrences, rename, Atom.occurrences_rename, List.map_append,
    List.flatMap_map, List.map_flatMap]
  exact congrArg _ (List.flatMap_congr fun l _ => l.occurrences_rename)

theorem Arg.term_rename (a : Arg) : (a.rename ρ).term = a.term.rename ρ := by
  cases a <;> rfl

theorem Goal.terms_rename (g : Goal) : (g.rename ρ).terms = g.terms.map (Term.rename ρ) := by
  rw [terms, terms, rename, List.map_map, List.map_map]
  exact List.map_congr_left fun a _ => a.term_rename

theorem Goal.occurrences_rename (g : Goal) : (g.rename ρ).terms.flatMap Term.occurrences =
    (g.terms.flatMap Term.occurrences).map ρ := by
  rw [terms_rename, List.flatMap_map, List.map_flatMap]
  exact List.flatMap_congr fun t _ => t.occurrences_rename

theorem Step.mem_vars_rename {step : Step} {v : Var} (hρ : Function.Injective ρ) :
    ρ v ∈ (step.rename ρ).vars ↔ v ∈ step.vars := by
  cases step <;>
    simp only [vars, rename, List.mem_eraseDups, Term.occurrences_rename, Goal.occurrences_rename,
      ← List.map_append, ← List.map_cons, List.mem_map_of_injective hρ]

section

variable (hρ : Function.Injective ρ)
include hρ

/-- Repetitions are where they were. -/
theorem eraseDups_map : ∀ vs : List Var, (vs.map ρ).eraseDups = vs.eraseDups.map ρ
  | [] => rfl
  | v :: vs => by
    have filter : (vs.map ρ).filter (fun w => !w == ρ v) = (vs.filter fun w => !w == v).map ρ := by
      rw [List.filter_map]
      refine congrArg _ (List.filter_congr fun w _ => ?_)
      simp [hρ.eq_iff]
    rw [List.map_cons, List.eraseDups_cons, List.eraseDups_cons, filter, List.map_cons,
      eraseDups_map (vs.filter fun w => !w == v)]
  termination_by vs => vs.length
  decreasing_by exact Nat.lt_succ_of_le (List.length_filter_le ..)

theorem Rule.isSingleton_rename (rule : Rule) (v : Var) :
    (rule.rename ρ).isSingleton (ρ v) = rule.isSingleton v := by
  rw [isSingleton, isSingleton, Rule.occurrences_rename, List.count_map_of_injective _ _ hρ]

end

/-! ## Runs in step -/

/-- **The drafts correspond**, and so will the variables invented from here on. -/
structure Draft.Renames (ρ : Var → Var) (d d' : Draft) : Prop where
  steps : d'.steps = d.steps.map (Step.rename ρ)
  bound : ∀ v, ρ v ∈ d'.bound ↔ v ∈ d.bound
  inlined : ∀ v, d'.inlined.get? (ρ v) = (d.inlined.get? v).map (Term.rename ρ)
  fresh : ∀ i, ρ (.fresh (d.next + i)) = .fresh (d'.next + i)

namespace Compile

variable {α β γ δ : Type}

/-- **The results correspond**, and so do the variables that are still to be invented. -/
inductive Ends (ρ : Var → Var) (R : α → β → Prop) : EStateM.Result Rejection Draft α →
    EStateM.Result Rejection Draft β → Prop
  | ok {a b d d'} (h : R a b) (hd : d.Renames ρ d') : Ends ρ R (.ok a d) (.ok b d')
  | error {e d d'} (fresh : ∀ i, ρ (.fresh (d.next + i)) = .fresh (d'.next + i)) :
      Ends ρ R (.error e d) (.error (e.rename ρ) d')

/-- **From drafts that correspond the actions end alike.** -/
def Alike (ρ : Var → Var) (R : α → β → Prop) (x : Compile α) (y : Compile β) : Prop :=
  ∀ d d', d.Renames ρ d' → Ends ρ R (x d) (y d')

namespace Alike

variable {R : α → β → Prop} {S : γ → δ → Prop} {x x' : Compile α} {y y' : Compile β}
  {f : α → Compile γ} {g : β → Compile δ}

theorem bind (h : Alike ρ R x y) (hf : ∀ a b, R a b → Alike ρ S (f a) (g b)) :
    Alike ρ S (x >>= f) (y >>= g) := by
  intro d d' hd
  change Ends ρ S (EStateM.bind x f d) (EStateM.bind y g d')
  have first := h d d' hd
  unfold EStateM.bind
  cases hx : x d with
  | ok a d₁ =>
    rw [hx] at first
    cases hy : y d' with
    | ok b d₂ =>
      rw [hy] at first
      cases first with
      | ok hab hd => exact hf a b hab d₁ d₂ hd
    | error e d₂ =>
      rw [hy] at first
      cases first
  | error e d₁ =>
    rw [hx] at first
    cases hy : y d' with
    | ok b d₂ =>
      rw [hy] at first
      cases first
    | error e' d₂ =>
      rw [hy] at first
      cases first with
      | error fresh => exact .error fresh

theorem pure {a : α} {b : β} (h : R a b) : Alike ρ R (Pure.pure a) (Pure.pure b) :=
  fun _ _ hd => .ok h hd

theorem throw {e e' : Rejection} (h : e' = e.rename ρ) :
    Alike ρ R (throw e : Compile α) (throw e' : Compile β) :=
  fun _ _ hd => h ▸ .error hd.fresh

theorem throw_bind {e e' : Rejection} (h : e' = e.rename ρ) {f : α → Compile γ}
    {g : α → Compile δ} : Alike ρ S ((MonadExcept.throw e : Compile α) >>= f)
      ((MonadExcept.throw e' : Compile α) >>= g) :=
  fun _ _ hd => h ▸ .error hd.fresh

theorem ite {p q : Prop} [Decidable p] [Decidable q] (hpq : q ↔ p) (h : Alike ρ R x y)
    (h' : Alike ρ R x' y') : Alike ρ R (if p then x else x') (if q then y else y') := by
  by_cases hp : p
  · rw [if_pos hp, if_pos (hpq.2 hp)]
    exact h
  · rw [if_neg hp, if_neg fun hq => hp (hpq.1 hq)]
    exact h'

theorem current (t : Term) :
    Alike ρ (fun u u' => u' = u.rename ρ) (current t) (current (t.rename ρ)) :=
  fun _ _ hd => .ok (Term.substitute_rename hd.inlined t) hd

theorem mapM_current (ts : List Term) : Alike ρ (fun us us' => us' = us.map (Term.rename ρ))
    (ts.mapM Compile.current) ((ts.map (Term.rename ρ)).mapM Compile.current) := by
  intro d d' hd
  rw [mapM_current_eq _, mapM_current_eq _]
  refine .ok ?_ hd
  rw [List.map_map, List.map_map]
  exact List.map_congr_left fun t _ => Term.substitute_rename hd.inlined t

theorem isBound (t : Term) : Alike ρ Eq (isBound t) (isBound (t.rename ρ)) :=
  fun _ _ hd => .ok (Term.isBoundBy_rename hd.bound t).symm hd

theorem get : Alike ρ (Draft.Renames ρ) MonadState.get MonadState.get :=
  fun _ _ hd => .ok hd hd

theorem invent : Alike ρ (fun v w => w = ρ v) invent invent := by
  refine fun d d' hd => .ok (hd.fresh 0).symm ⟨hd.steps, hd.bound, hd.inlined, fun i => ?_⟩
  rw [Nat.add_assoc, Nat.add_assoc]
  exact hd.fresh (1 + i)

theorem inventAll {ts ts' : List α} (h : ts'.length = ts.length) :
    Alike ρ (fun vs ws => ws = vs.map ρ) (inventAll ts) (inventAll ts') := by
  induction ts generalizing ts' with
  | nil =>
    obtain rfl := List.length_eq_zero_iff.1 h
    rw [Compile.inventAll, List.mapM_nil]
    exact .pure rfl
  | cons t ts ih =>
    cases ts' with
    | nil => cases h
    | cons t' ts' =>
      rw [Compile.inventAll, Compile.inventAll, List.mapM_cons, List.mapM_cons]
      refine .bind invent fun v w hv => .bind (ih (Nat.succ.inj h)) fun vs ws hvs => .pure ?_
      rw [hv, hvs, List.map_cons]

end Alike

variable (hρ : Function.Injective ρ)
include hρ

theorem alike_emit (step : Step) :
    Alike ρ (fun _ _ => True) (emit step) (emit (step.rename ρ)) := by
  intro d d' hd
  change Ends ρ _ (.ok () (d.emitted step)) (.ok () (d'.emitted (step.rename ρ)))
  refine .ok trivial ⟨?_, fun v => ?_, hd.inlined, hd.fresh⟩
  · change d'.steps ++ [step.rename ρ] = (d.steps ++ [step]).map (Step.rename ρ)
    rw [hd.steps, List.map_append, List.map_singleton]
  · have binds : (step.rename ρ).binds = step.binds := by cases step <;> rfl
    rw [Draft.mem_bound_emitted, Draft.mem_bound_emitted, hd.bound, binds,
      Step.mem_vars_rename hρ]

theorem alike_inline (v : Var) (t : Term) :
    Alike ρ (fun _ _ => True) (inline v t) (inline (ρ v) (t.rename ρ)) := by
  intro d d' hd
  change Ends ρ _ (.ok () (d.inlining v t)) (.ok () (d'.inlining (ρ v) (t.rename ρ)))
  refine .ok trivial ⟨hd.steps, hd.bound, fun w => ?_, hd.fresh⟩
  rw [Draft.inlining, Draft.inlining, Assoc.get?_put, Assoc.get?_put]
  by_cases h : v = w
  · rw [if_pos h, if_pos (congrArg ρ h)]
    rfl
  · rw [if_neg h, if_neg fun e => h (hρ e)]
    exact hd.inlined w

variable {rule : Rule} {mode : Unification}

theorem alike_equateBinders {ts : List Term}
    (ih : ∀ t ∈ ts, ∀ (l : Literal) (u : Term), Alike ρ (fun _ _ => True)
      (bindPattern rule mode l u t)
      (bindPattern (rule.rename ρ) mode (l.rename ρ) (u.rename ρ) (t.rename ρ))) :
    ∀ ys : List Var, Alike ρ (fun _ _ => True) (equateBinders rule mode ys ts)
      (equateBinders (rule.rename ρ) mode (ys.map ρ) (ts.map (Term.rename ρ))) := by
  induction ts with
  | nil =>
    intro ys
    cases ys <;> exact .pure trivial
  | cons t ts ihts =>
    intro ys
    cases ys with
    | nil => exact .pure trivial
    | cons y ys =>
      have rest := ihts (fun u hu => ih u (List.mem_cons_of_mem _ hu)) ys
      rw [List.map_cons, List.map_cons, equateBinders, equateBinders]
      refine .bind (.current t) fun t' _ h => ?_
      subst h
      refine .bind (.isBound t') fun p q hpq => .ite (by rw [hpq]) ?_ ?_
      · exact .bind (alike_emit hρ (.check (.var y) t' false)) fun _ _ _ => rest
      · exact .bind (ih t (List.mem_cons_self ..) (.unify (.var y) t' false) (.var y))
          fun _ _ _ => rest

theorem alike_bindPattern (t : Term) : ∀ (l : Literal) (u : Term), Alike ρ (fun _ _ => True)
    (bindPattern rule mode l u t)
    (bindPattern (rule.rename ρ) mode (l.rename ρ) (u.rename ρ) (t.rename ρ)) := by
  induction t with
  | var v =>
    intro l u
    rw [Term.rename, bindPattern, bindPattern]
    refine .ite ?_ (alike_inline hρ v u) (alike_emit hρ (.assign v u))
    rw [Term.asVar?_rename, Option.isSome_map]
  | ctor f args ih =>
    intro l u
    rw [Term.rename, Term.renameAll_eq_map, bindPattern, bindPattern]
    refine .bind (.inventAll (List.length_map ..)) fun ys _ h => ?_
    subst h
    exact .bind (alike_emit hρ (.destruct u f ys)) fun _ _ _ =>
      alike_equateBinders hρ ih ys
  | lit | call =>
    intro l u
    rw [Term.rename, bindPattern, bindPattern]
    exact .throw rfl

omit hρ in
theorem alike_equateAll {ls : List Term}
    (ih : ∀ l ∈ ls, ∀ r : Term, Alike ρ (fun _ _ => True) (equate rule mode l r)
      (equate (rule.rename ρ) mode (l.rename ρ) (r.rename ρ))) :
    ∀ rs : List Term, Alike ρ (fun _ _ => True) (equateAll rule mode ls rs)
      (equateAll (rule.rename ρ) mode (ls.map (Term.rename ρ)) (rs.map (Term.rename ρ))) := by
  induction ls with
  | nil =>
    intro rs
    cases rs <;> exact .pure trivial
  | cons l ls ihls =>
    intro rs
    cases rs with
    | nil => exact .pure trivial
    | cons r rs =>
      rw [List.map_cons, List.map_cons, equateAll, equateAll]
      exact .bind (ih l (List.mem_cons_self ..) r) fun _ _ _ =>
        ihls (fun u hu => ih u (List.mem_cons_of_mem _ hu)) rs

theorem alike_equate (l : Term) : ∀ r : Term, Alike ρ (fun _ _ => True) (equate rule mode l r)
    (equate (rule.rename ρ) mode (l.rename ρ) (r.rename ρ)) := by
  -- only constructors on both sides lead to smaller equations
  have ways {l r : Term} (apart : ∀ f as g bs, l = .ctor f as → r = .ctor g bs →
        Alike ρ (fun _ _ => True) (equateAll rule mode as bs)
          (equateAll (rule.rename ρ) mode (as.map (Term.rename ρ)) (bs.map (Term.rename ρ)))) :
      Alike ρ (fun _ _ => True) (equate rule mode l r)
        (equate (rule.rename ρ) mode (l.rename ρ) (r.rename ρ)) := by
    unfold equate
    refine .bind (.current l) fun l' _ hl => .bind (.current r) fun r' _ hr => ?_
    subst hl hr
    refine .bind (.isBound l') fun bl _ hbl => .bind (.isBound r') fun br _ hbr => ?_
    cases hbl
    cases hbr
    cases bl <;> cases br
    · cases l <;> cases r
      case ctor.ctor f as g bs =>
        rw [Term.rename, Term.rename, Term.renameAll_eq_map, Term.renameAll_eq_map]
        refine .ite (by rw [List.length_map, List.length_map]) (apart f as g bs rfl rfl) ?_
        exact .throw rfl
      all_goals exact .throw rfl
    · exact alike_bindPattern hρ l (.unify l' r' false) r'
    · exact alike_bindPattern hρ r (.unify l' r' false) l'
    · exact alike_emit hρ (.check l' r' false)
  induction l with
  | ctor f as ih =>
    intro r
    refine ways ?_
    rintro _ _ g bs ⟨⟩ rfl
    exact alike_equateAll ih bs
  | var | lit | call =>
    intro r
    refine ways ?_
    rintro _ _ _ _ ⟨⟩

theorem alike_distinguish (l r : Term) : Alike ρ (fun _ _ => True) (distinguish rule l r)
    (distinguish (rule.rename ρ) (l.rename ρ) (r.rename ρ)) := by
  unfold distinguish
  refine .bind (.current l) fun l' _ hl => .bind (.current r) fun r' _ hr => ?_
  subst hl hr
  refine .bind (.isBound l') fun bl _ hbl => .bind (.isBound r') fun br _ hbr => ?_
  cases hbl
  cases hbr
  exact .ite Iff.rfl (alike_emit hρ (.check l' r' true)) (.throw rfl)

/-- What becomes of an argument, renamed. -/
def Renamed (ρ : Var → Var) (a b : Arg × List Var × List (Var × Term)) : Prop :=
  b = (a.1.rename ρ, a.2.1.map ρ, a.2.2.map (Prod.map ρ (Term.rename ρ)))

theorem alike_argument (met : List Var) (t : Term) : Alike ρ (Renamed ρ) (argument rule met t)
    (argument (rule.rename ρ) (met.map ρ) (t.rename ρ)) := by
  have invented : Alike ρ (Renamed ρ) (do let y ← invent; return (Arg.free y, met, [(y, t)]))
      (do let y ← invent; return (Arg.free y, met.map ρ, [(y, t.rename ρ)])) :=
    .bind .invent fun y _ h => .pure (h ▸ rfl)
  unfold argument
  refine .bind (.current t) fun t' _ h => ?_
  subst h
  refine .bind (.isBound t') fun p _ hp => ?_
  cases hp
  refine .ite Iff.rfl (.pure rfl) ?_
  rw [Term.asVar?_rename]
  cases t'.asVar? with
  | none => exact invented
  | some v =>
    refine .ite (not_congr (List.mem_map_of_injective hρ)) (.pure ?_) invented
    rw [Renamed, rule.isSingleton_rename hρ]
    cases rule.isSingleton v <;> rfl

theorem alike_arguments (ts : List Term) : ∀ met : List Var, Alike ρ
    (fun a b => b = (a.1.map (Arg.rename ρ), a.2.map (Prod.map ρ (Term.rename ρ))))
    (arguments rule met ts)
    (arguments (rule.rename ρ) (met.map ρ) (ts.map (Term.rename ρ))) := by
  induction ts with
  | nil => exact fun _ => .pure rfl
  | cons t ts ih =>
    intro met
    rw [List.map_cons, arguments, arguments]
    refine .bind (alike_argument hρ met t) ?_
    rintro ⟨arg, met', owed⟩ _ rfl
    refine .bind (ih met') ?_
    rintro ⟨args, rest⟩ _ rfl
    exact .pure (by rw [List.map_append]; rfl)

theorem alike_search (delta : Bool) (a : Atom) : Alike ρ (fun _ _ => True)
    (search rule mode delta a) (search (rule.rename ρ) mode delta (a.rename ρ)) := by
  unfold search
  refine .bind (.mapM_current a.args) fun ts _ h => ?_
  subst h
  have arity : (a.rename ρ).HasArity ↔ a.HasArity := by
    rw [Atom.HasArity, Atom.HasArity, Atom.rename, List.length_map]
  refine .ite arity (.ite Iff.rfl (.throw_bind rfl) ?_) (.throw_bind rfl)
  refine .bind (alike_arguments hρ a.args []) ?_
  rintro ⟨args, owed⟩ _ rfl
  have free : (args.map (Arg.rename ρ)).any Arg.isFree = args.any Arg.isFree := by
    rw [List.any_map]
    exact List.any_congr rfl fun arg => by cases arg <;> rfl
  refine .ite (by rw [free]; rfl) (.throw_bind rfl) ?_
  let g : Goal := { relation := a.relation, args, negated := a.negated, delta }
  refine .bind (alike_emit hρ (.lookup g)) fun _ _ _ => ?_
  have owing : Alike ρ _ (equateBinders rule mode _ _) _ := alike_equateBinders hρ
    (fun t (_ : t ∈ owed.map Prod.snd) => alike_bindPattern hρ t) (owed.map Prod.fst)
  rw [List.map_map, List.map_map] at owing ⊢
  exact owing

theorem alike_literal (delta : Bool) (l : Literal) : Alike ρ (fun _ _ => True)
    (literal rule mode delta l) (literal (rule.rename ρ) mode delta (l.rename ρ)) := by
  cases l with
  | atom a => exact alike_search hρ delta a
  | unify l r negated =>
    cases negated with
    | false => exact alike_equate hρ l r
    | true => exact alike_distinguish hρ l r

theorem alike_literals (rule : Rule) (mode : Unification) (ls : List (Literal × Nat))
    (delta : Option Nat) :
    Alike ρ (fun _ _ => True) (ls.forM fun (l, i) => literal rule mode (delta = some i) l)
      ((ls.map (Prod.map (Literal.rename ρ) id)).forM fun (l, i) =>
        literal (rule.rename ρ) mode (delta = some i) l) := by
  induction ls with
  | nil => exact .pure trivial
  | cons e ls ih => exact .bind (alike_literal hρ _ e.1) fun _ _ _ => ih

theorem alike_head : Alike ρ (fun h h' => h' = h.rename ρ) (head rule) (head (rule.rename ρ)) := by
  unfold head
  refine .bind (.mapM_current rule.head.args) fun ts _ h => ?_
  subst h
  refine .bind .get fun d d' hd => ?_
  have unbound : (((ts.map (Term.rename ρ)).flatMap Term.vars).filter
      (!d'.bound.contains ·)).eraseDups =
      ((ts.flatMap Term.vars).filter (!d.bound.contains ·)).eraseDups.map ρ := by
    have vars : (ts.map (Term.rename ρ)).flatMap Term.vars = (ts.flatMap Term.vars).map ρ := by
      rw [List.flatMap_map, List.map_flatMap]
      refine List.flatMap_congr fun t _ => ?_
      rw [Term.vars, Term.vars, Term.occurrences_rename, eraseDups_map hρ]
    rw [vars, List.filter_map, ← eraseDups_map hρ]
    refine congrArg _ (congrArg _ (List.filter_congr fun v _ => ?_))
    rw [Function.comp_apply, Bool.eq_iff_iff]
    simp [hd.bound v]
  dsimp only
  rw [unbound, List.isEmpty_map]
  exact .ite Iff.rfl (.pure rfl) (.throw_bind rfl)

theorem alike_clause (delta : Option Nat) : Alike ρ (fun c c' => c' = c.rename ρ)
    (clause rule mode delta) (clause (rule.rename ρ) mode delta) := by
  have arity : (rule.rename ρ).head.HasArity ↔ rule.head.HasArity := by
    rw [Atom.HasArity, Atom.HasArity, Rule.rename, Atom.rename, List.length_map]
  unfold clause
  refine .ite arity (.ite Iff.rfl (.throw_bind rfl) ?_) (.throw_bind rfl)
  have body := alike_literals hρ rule mode rule.body.zipIdx delta
  rw [← List.zipIdx_map] at body
  refine .bind body fun _ _ _ => .bind (alike_head hρ) fun h _ hh => .bind .get fun d d' hd => ?_
  subst hh
  exact .pure (by rw [Clause.rename, hd.steps])

end Compile

end Datalog
