import Datalog.Proofs.Compile.Pattern

/-!
# Proofs/Compile/Atom — what a goal and its equations come to

An atom becomes a goal and equations for the arguments that gave their places to invented
variables.  `Compile.Arranged` says what each argument became; together goal and equations say that
some tuple has the atom's values at every position but those of single variables.
-/

namespace Datalog

/-- What a lookup of the relation ranges over; one of new tuples reads the seed. -/
def Scene.Gives (s : Scene) (delta : Bool) (r : Relation) (t : Tuple) : Prop :=
  match delta, s.seed with
  | true, some seed => seed t
  | _, _ => s.facts r t

theorem Scene.offers_iff {s : Scene} {g : Goal} {t : Tuple} :
    s.Offers g t ↔ s.Gives g.delta g.relation t := Iff.rfl

/-- **The tuples that the scene has for a relation have its arity.** -/
structure Scene.Measures (s : Scene) (delta : Bool) (r : Relation) : Prop where
  gives : ∀ t, s.Gives delta r t → t.length = r.arity
  absent : ∀ t, s.absent r t → t.length = r.arity

/-- The term has the value, or is a single variable. -/
def Term.Passes (single : Var → Prop) (fns : Functions) (ρ : Env) (t x : Term) : Prop :=
  (∃ v, t = .var v ∧ single v) ∨ t.value? ρ fns = some x

theorem Term.passes_iff {single : Var → Prop} {fns : Functions} {ρ : Env} {t x : Term}
    (h : ∀ v, t = .var v → ¬single v) : t.Passes single fns ρ x ↔ t.value? ρ fns = some x := by
  refine ⟨fun hp => hp.resolve_left ?_, .inr⟩
  rintro ⟨v, rfl, hv⟩
  exact h v rfl hv

/-- **The tuple has the atom's values**, but for single variables. -/
def Atom.Matches (single : Var → Prop) (fns : Functions) (ρ : Env) (a : Atom) (tuple : Tuple) :
    Prop :=
  List.Forall₂ (Term.Passes single fns ρ) a.args tuple

/-- **What an atom says**: some tuple has its values; negated, its values exist and none has
them. -/
def Atom.Fits (single : Var → Prop) (s : Scene) (delta : Bool) (ρ : Env) (a : Atom) : Prop :=
  if a.negated then
    (∀ t ∈ a.args, ∃ x, t.Passes single s.functions ρ x) ∧
      ∀ tuple, s.absent a.relation tuple → ¬a.Matches single s.functions ρ tuple
  else ∃ tuple, s.Gives delta a.relation tuple ∧ a.Matches single s.functions ρ tuple

/-- **The tuple's values are bound** where the argument is free. -/
def Arg.Holds (b : Bindings) (arg : Arg) (x : Term) : Prop :=
  ∀ v ∈ arg.writes, b.get? v = some x

/-- A goal binds each of its free variables to the value at its position. -/
theorem Goal.forall₂_holds {g : Goal} {tuple : Tuple} {b : Bindings}
    (hlen : tuple.length = g.args.length) (nodup : (g.args.flatMap Arg.writes).Nodup) :
    List.Forall₂ (Arg.Holds (g.bind tuple b)) g.args tuple := by
  refine List.forall₂_iff_zip.2 ⟨hlen.symm, fun {arg x} hz v hv => ?_⟩
  rw [Goal.bind_eq_putAll]
  refine Assoc.get?_putAll_of_mem ?_ ?_
  · rwa [Goal.map_fst_bindingsOf (Nat.le_of_eq hlen.symm)]
  · exact List.mem_flatMap.2 ⟨_, hz, List.mem_map.2 ⟨v, hv, rfl⟩⟩

namespace Compile

open Draft

variable {single : Var → Prop} {old : Nat} {s : Scene} {rule : Rule} {mode : Unification}
  {seen : List Var} {d d' : Draft}

/-- **What each argument became.**  `met` lists the unseen variables of the goal so far and `n`
numbers the next invented variable; `direct` are the terms that kept their places, `owed` the
equations for those that did not. -/
inductive Arranged (single : Var → Prop) (seen : List Var) (σ : Bindings) : (met : List Var) →
    (n : Nat) → List Term → List Arg → (direct : List Term) → (owed : List (Var × Term)) → Prop
  | nil {met n} : Arranged single seen σ met n [] [] [] []
  | bound {met n t ts args direct owed} (ht : t.isBoundBy seen = true)
      (hv : ∀ v, t = .var v → ¬single v) (rest : Arranged single seen σ met n ts args direct owed) :
      Arranged single seen σ met n (t :: ts) (.bound (t.substitute σ) :: args) (t :: direct) owed
  | free {met n v ts args direct owed} (hs : v ∉ seen) (hm : v ∉ met) (hv : ¬single v)
      (rest : Arranged single seen σ (v :: met) n ts args direct owed) :
      Arranged single seen σ met n (.var v :: ts) (.free v :: args) (.var v :: direct) owed
  | ignored {met n v ts args direct owed} (hs : v ∉ seen) (hv : single v)
      (rest : Arranged single seen σ (v :: met) n ts args direct owed) :
      Arranged single seen σ met n (.var v :: ts) (.ignored v :: args) (.var v :: direct) owed
  | invented {met n t ts args direct owed} (ht : t.isBoundBy seen = false)
      (hv : ∀ v, t = .var v → ¬single v)
      (rest : Arranged single seen σ met (n + 1) ts args direct owed) :
      Arranged single seen σ met n (t :: ts) (.free (.fresh n) :: args) direct
        ((.fresh n, t) :: owed)

namespace Arranged

variable {σ : Bindings} {met : List Var} {n : Nat} {ts direct : List Term} {args : List Arg}
  {owed : List (Var × Term)}

theorem length_eq (h : Arranged single seen σ met n ts args direct owed) :
    args.length = ts.length := by
  induction h with
  | nil => rfl
  | bound _ _ _ ih | free _ _ _ _ ih | ignored _ _ _ ih | invented _ _ _ ih =>
    rw [List.length_cons, List.length_cons, ih]

/-- The variables of the atom are those of the terms that kept their places and of the others. -/
theorem perm (h : Arranged single seen σ met n ts args direct owed) :
    (Term.occurrencesOf ts).Perm
      (Term.occurrencesOf direct ++ Term.occurrencesOf (owed.map Prod.snd)) := by
  refine List.perm_iff_count.2 fun w => ?_
  induction h with
  | nil => rfl
  | bound _ _ _ ih | free _ _ _ _ ih | ignored _ _ _ ih | invented _ _ _ ih =>
    simp only [Term.occurrencesOf, List.map_cons, List.count_append] at ih ⊢
    omega

/-- What the goal reads are variables of terms that have been seen. -/
theorem reads (h : Arranged single seen σ met n ts args direct owed) {w : Var}
    (hw : w ∈ args.flatMap Arg.reads) :
    ∃ t ∈ ts, t.isBoundBy seen = true ∧ w ∈ (t.substitute σ).occurrences := by
  induction h with
  | nil => cases hw
  | bound ht _ _ ih =>
    rcases List.mem_append.1 hw with hw | hw
    · exact ⟨_, List.mem_cons_self .., ht, hw⟩
    · obtain ⟨t, h⟩ := ih hw
      exact ⟨t, List.mem_cons_of_mem _ h.1, h.2⟩
  | free _ _ _ _ ih | ignored _ _ _ ih | invented _ _ _ ih =>
    obtain ⟨t, h⟩ := ih hw
    exact ⟨t, List.mem_cons_of_mem _ h.1, h.2⟩

/-- **What the goal writes**: variables met for the first time, and invented ones. -/
theorem writes (h : Arranged single seen σ met n ts args direct owed) {w : Var}
    (hw : w ∈ args.flatMap Arg.writes) :
    w ∈ Term.occurrencesOf direct ∧ w ∉ seen ∧ w ∉ met ∨
      n ≤ w.number ∧ w.number < n + owed.length := by
  induction h with
  | nil => cases hw
  | bound _ _ _ ih =>
    exact (ih hw).imp_left fun h => ⟨List.mem_append_right _ h.1, h.2⟩
  | free hs hm _ _ ih =>
    rcases List.mem_cons.1 hw with rfl | hw
    · exact .inl ⟨List.mem_append_left _ (List.mem_singleton.2 rfl), hs, hm⟩
    · refine (ih hw).imp_left fun h => ⟨List.mem_append_right _ h.1, h.2.1, fun hm => ?_⟩
      exact h.2.2 (List.mem_cons_of_mem _ hm)
  | ignored _ _ _ ih =>
    refine (ih hw).imp_left fun h => ⟨List.mem_append_right _ h.1, h.2.1, fun hm => ?_⟩
    exact h.2.2 (List.mem_cons_of_mem _ hm)
  | invented _ _ _ ih =>
    rw [List.length_cons]
    rcases List.mem_cons.1 hw with rfl | hw
    · exact .inr ⟨Nat.le_refl _, by simp [Var.fresh]⟩
    · exact (ih hw).imp_right fun h => by omega

theorem nodup_writes (h : Arranged single seen σ met n ts args direct owed)
    (hold : ∀ v ∈ Term.occurrencesOf direct, v.number < n) : (args.flatMap Arg.writes).Nodup := by
  induction h with
  | nil => exact List.nodup_nil
  | bound _ _ _ ih | ignored _ _ _ ih =>
    exact ih fun v hv => hold v (List.mem_append_right _ hv)
  | free _ _ _ rest ih =>
    refine List.nodup_cons.2 ⟨fun hw => ?_, ih fun v hv => hold v (List.mem_append_right _ hv)⟩
    rcases rest.writes hw with ⟨_, _, hm⟩ | ⟨hn, _⟩
    · exact hm (List.mem_cons_self ..)
    · have := hold _ (List.mem_append_left _ (List.mem_singleton.2 rfl))
      omega
  | @invented _ n _ _ _ direct _ _ _ rest ih =>
    refine List.nodup_cons.2 ⟨fun hw => ?_, ih fun v hv => Nat.lt_succ_of_lt (hold v hv)⟩
    rcases rest.writes hw with ⟨hd, _⟩ | ⟨hn, _⟩
    · have : n < n := hold _ hd
      omega
    · have : n + 1 ≤ n := hn
      omega

/-- A variable of the goal is read or bound by it, or it is ignored. -/
theorem vars (h : Arranged single seen σ met n ts args direct owed) {w : Var}
    (hw : w ∈ (args.map Arg.term).flatMap Term.occurrences) :
    w ∈ args.flatMap Arg.reads ∨ w ∈ args.flatMap Arg.writes ∨
      w ∈ Term.occurrencesOf direct ∧ w ∉ seen ∧ single w := by
  induction h with
  | nil => cases hw
  | bound _ _ _ ih =>
    rcases List.mem_append.1 hw with hw | hw
    · exact .inl (List.mem_append_left _ hw)
    · refine (ih hw).imp (List.mem_append_right _) fun h => h.imp_right fun h => ?_
      exact ⟨List.mem_append_right _ h.1, h.2⟩
  | free _ _ _ _ ih =>
    rcases List.mem_append.1 hw with hw | hw
    · exact .inr (.inl (List.mem_append_left _ hw))
    · refine (ih hw).imp_right fun h => h.imp (List.mem_append_right _) fun h => ?_
      exact ⟨List.mem_append_right _ h.1, h.2⟩
  | ignored hs hv _ ih =>
    rcases List.mem_append.1 hw with hw | hw
    · obtain rfl := List.mem_singleton.1 hw
      exact .inr (.inr ⟨List.mem_append_left _ (List.mem_singleton.2 rfl), hs, hv⟩)
    · refine (ih hw).imp_right fun h => h.imp_right fun h => ?_
      exact ⟨List.mem_append_right _ h.1, h.2⟩
  | invented _ _ _ ih =>
    rcases List.mem_append.1 hw with hw | hw
    · exact .inr (.inl (List.mem_append_left _ hw))
    · exact (ih hw).imp_right fun h => h.imp_left (List.mem_append_right _)

/-- **After the goal** the variables of the terms that kept their places are seen, bound or
single. -/
theorem direct_cases (h : Arranged single seen σ met n ts args direct owed) {w : Var}
    (hw : w ∈ Term.occurrencesOf direct) :
    (∃ t ∈ ts, t.isBoundBy seen = true ∧ w ∈ t.occurrences) ∨
      w ∈ args.flatMap Arg.writes ∨ single w := by
  induction h with
  | nil => cases hw
  | bound ht _ _ ih =>
    rcases List.mem_append.1 hw with hw | hw
    · exact .inl ⟨_, List.mem_cons_self .., ht, hw⟩
    · exact (ih hw).imp_left fun ⟨t, h⟩ => ⟨t, List.mem_cons_of_mem _ h.1, h.2⟩
  | free _ _ _ _ ih =>
    rcases List.mem_append.1 hw with hw | hw
    · exact .inr (.inl (List.mem_append_left _ hw))
    · refine (ih hw).imp (fun ⟨t, h⟩ => ⟨t, List.mem_cons_of_mem _ h.1, h.2⟩) fun h => ?_
      exact h.imp_left (List.mem_append_right _)
  | ignored _ hv _ ih =>
    rcases List.mem_append.1 hw with hw | hw
    · obtain rfl := List.mem_singleton.1 hw
      exact .inr (.inr hv)
    · exact (ih hw).imp_left fun ⟨t, h⟩ => ⟨t, List.mem_cons_of_mem _ h.1, h.2⟩
  | invented _ _ _ ih =>
    refine (ih hw).imp (fun ⟨t, h⟩ => ⟨t, List.mem_cons_of_mem _ h.1, h.2⟩) fun h => ?_
    exact h.imp_left (List.mem_append_right _)

theorem owed_subset (h : Arranged single seen σ met n ts args direct owed) :
    owed.map Prod.fst ⊆ args.flatMap Arg.writes := by
  induction h with
  | nil => exact List.Subset.refl _
  | bound _ _ _ ih | ignored _ _ _ ih => exact ih
  | free _ _ _ _ ih => exact fun v hv => List.mem_cons_of_mem _ (ih hv)
  | invented _ _ _ ih =>
    intro v hv
    rcases List.mem_cons.1 hv with rfl | hv
    · exact List.mem_cons_self ..
    · exact List.mem_cons_of_mem _ (ih hv)

/-- Nothing is owed by a goal that binds nothing. -/
theorem owed_eq_nil (h : Arranged single seen σ met n ts args direct owed)
    (hf : args.any Arg.isFree = false) : owed = [] ∧ args.flatMap Arg.writes = [] := by
  induction h with
  | nil => exact ⟨rfl, rfl⟩
  | bound _ _ _ ih | ignored _ _ _ ih => exact ih hf
  | free | invented => cases hf

/-- **The atom has values** exactly if the bound arguments of a goal that binds nothing have. -/
theorem exists_passes_iff (h : Arranged single seen σ met n ts args direct owed) {fns : Functions}
    {ρ : Env} {b : Bindings} (hw : args.flatMap Arg.writes = [])
    (hb : ∀ t ∈ ts, t.isBoundBy seen = true →
      (t.substitute σ).value? b.get? fns = t.value? ρ fns) :
    (∀ t ∈ ts, ∃ x, t.Passes single fns ρ x) ↔
      ∀ t, .bound t ∈ args → ∃ x, t.value? b.get? fns = some x := by
  induction h with
  | nil => exact ⟨fun _ _ => nofun, fun _ _ => nofun⟩
  | @bound _ _ t ts args _ _ ht hv _ ih =>
    have ih := ih hw fun t h => hb t (List.mem_cons_of_mem _ h)
    have head : (∃ x, t.Passes single fns ρ x) ↔
        ∃ x, (t.substitute σ).value? b.get? fns = some x := by
      simp only [Term.passes_iff hv, hb t (List.mem_cons_self ..) ht]
    constructor
    · intro h u hu
      rcases List.mem_cons.1 hu with hu | hu
      · cases hu
        exact head.1 (h t (List.mem_cons_self ..))
      · exact ih.1 (fun t ht => h t (List.mem_cons_of_mem _ ht)) u hu
    · intro h u hu
      rcases List.mem_cons.1 hu with rfl | hu
      · exact head.2 (h _ (List.mem_cons_self ..))
      · exact ih.2 (fun t ht => h t (List.mem_cons_of_mem _ ht)) u hu
  | free | invented => cases hw
  | @ignored _ _ v _ _ _ _ _ hv _ ih =>
    have ih := ih hw fun t h => hb t (List.mem_cons_of_mem _ h)
    constructor
    · intro h u hu
      rcases List.mem_cons.1 hu with hu | hu
      · cases hu
      · exact ih.1 (fun t ht => h t (List.mem_cons_of_mem _ ht)) u hu
    · intro h u hu
      rcases List.mem_cons.1 hu with rfl | hu
      · exact ⟨.var v, .inl ⟨v, rfl, hv⟩⟩
      · exact ih.2 (fun t ht => h t (List.mem_cons_of_mem _ ht)) u hu

/-- **A tuple has the atom's values** exactly if it meets the bound arguments, gives the free
variables the values of the environment, and what is owed receives what the invented ones hold. -/
theorem passes_iff (h : Arranged single seen σ met n ts args direct owed) (mode : Unification)
    (strict : Bool) {fns : Functions} {ρ : Env} {b b' : Bindings} {tuple : Tuple} (hn : old ≤ n)
    (hold : ∀ v ∈ Term.occurrencesOf ts, v.number < old)
    (hb : ∀ t ∈ ts, t.isBoundBy seen = true → (t.substitute σ).value? b.get? fns = t.value? ρ fns)
    (holds : List.Forall₂ (Arg.Holds b') args tuple) :
    List.Forall₂ (Term.Passes single fns ρ) ts tuple ↔
      List.Forall₂ (Arg.Meets b.get? fns) args tuple ∧
      (∀ v ∈ args.flatMap Arg.writes, v.number < old → b'.get? v = ρ v) ∧
      AllReceive mode fns (owed.map Prod.fst) (owed.map Prod.snd) strict b' ρ := by
  induction h generalizing tuple with
  | nil =>
    cases holds
    exact ⟨fun _ => ⟨.nil, nofun, .nil⟩, fun _ => .nil⟩
  | @bound _ _ t _ _ _ _ ht hv _ ih =>
    cases holds with | @cons _ x _ _ _ holds =>
    rw [List.forall₂_cons, List.forall₂_cons, ih hn
      (fun v h => hold v (List.mem_append_right _ h))
      (fun t h => hb t (List.mem_cons_of_mem _ h)) holds, Term.passes_iff hv,
      ← hb t (List.mem_cons_self ..) ht, and_assoc]
    refine and_congr_left fun _ => ⟨fun h u hu => ?_, fun h => h _ rfl⟩
    cases hu
    exact h
  | @free _ _ v _ _ _ _ hs _ hv _ ih =>
    cases holds with | @cons _ x _ _ hx holds =>
    have hx : b'.get? v = some x := hx v (List.mem_singleton.2 rfl)
    have hvo : v.number < old := hold v (List.mem_append_left _ (List.mem_singleton.2 rfl))
    rw [List.forall₂_cons, List.forall₂_cons, ih hn
      (fun v h => hold v (List.mem_append_right _ h))
      (fun t h => hb t (List.mem_cons_of_mem _ h)) holds,
      Term.passes_iff (fun w e => by cases e; exact hv), Term.value?_var]
    constructor
    · rintro ⟨h, hmeets, hw, howed⟩
      refine ⟨⟨nofun, hmeets⟩, fun w hw' => ?_, howed⟩
      rcases List.mem_cons.1 hw' with rfl | hw'
      · exact fun _ => hx.trans h.symm
      · exact hw w hw'
    · rintro ⟨⟨_, hmeets⟩, hw, howed⟩
      refine ⟨?_, hmeets, fun w hw' => hw w (List.mem_cons_of_mem _ hw'), howed⟩
      rw [← hw v (List.mem_cons_self ..) hvo, hx]
  | @ignored _ _ v _ _ _ _ hs hv _ ih =>
    cases holds with | @cons _ x _ _ _ holds =>
    rw [List.forall₂_cons, List.forall₂_cons, ih hn
      (fun v h => hold v (List.mem_append_right _ h))
      (fun t h => hb t (List.mem_cons_of_mem _ h)) holds, and_assoc]
    exact and_congr_left fun _ => ⟨fun _ => nofun, fun _ => .inl ⟨v, rfl, hv⟩⟩
  | @invented _ n t _ _ _ _ _ hv _ ih =>
    cases holds with | @cons _ x _ _ hx holds =>
    have hx : b'.get? (.fresh n) = some x := hx _ (List.mem_singleton.2 rfl)
    rw [List.forall₂_cons, List.forall₂_cons, ih (Nat.le_succ_of_le hn)
      (fun v h => hold v (List.mem_append_right _ h))
      (fun t h => hb t (List.mem_cons_of_mem _ h)) holds, Term.passes_iff hv, List.map_cons,
      List.map_cons, AllReceive, AllReceive, List.forall₂_cons, hx, Term.receives_some_iff]
    constructor
    · rintro ⟨h, hmeets, hw, howed⟩
      refine ⟨⟨nofun, hmeets⟩, fun w hw' => ?_, h, howed⟩
      rcases List.mem_cons.1 hw' with rfl | hw'
      · intro hlt
        have : n < old := hlt
        omega
      · exact hw w hw'
    · rintro ⟨⟨_, hmeets⟩, hw, h, howed⟩
      exact ⟨h, hmeets, fun w hw' => hw w (List.mem_cons_of_mem _ hw'), howed⟩

end Arranged

end Compile

end Datalog
