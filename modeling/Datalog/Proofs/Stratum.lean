import Datalog.Proofs.Compile.Variant
import Datalog.Stratum.Plan

/-!
# Proofs/Stratum — how the clauses of a stratum belong together

Planning gives every rule a base clause and, for each atom over a relation that the stratum
derives, a variant of it among the clauses that new tuples of the relation set off
(`Stratum.Linked`).  What evaluation needs to know of a stratum follows from that
(`Stratum.Differential`).
-/

namespace Datalog

namespace Outcome

variable {ε σ α : Type u}

/-- An error is caught where it has left the state. -/
theorem tryCatch_ok_iff {x : EStateM ε σ α} {f : ε → EStateM ε σ α} {s t : σ} {a : α} :
    (tryCatch x f) s = .ok a t ↔ x s = .ok a t ∨ ∃ e u, x s = .error e u ∧ f e u = .ok a t := by
  change EStateM.tryCatch x f s = _ ↔ _
  unfold EStateM.tryCatch
  cases h : x s with
  | ok b u => simp
  | error e u =>
    refine ⟨fun hf => .inr ⟨e, u, rfl, hf⟩, ?_⟩
    rintro (heq | ⟨_, _, heq, hf⟩)
    · cases heq
    · cases heq
      exact hf

theorem tryCatch_error_iff {x : EStateM ε σ α} {f : ε → EStateM ε σ α} {s t : σ} {e : ε} :
    (tryCatch x f) s = .error e t ↔ ∃ e' u, x s = .error e' u ∧ f e' u = .error e t := by
  change EStateM.tryCatch x f s = _ ↔ _
  unfold EStateM.tryCatch
  cases h : x s with
  | ok b u => simp
  | error e' u =>
    refine ⟨fun hf => ⟨e', u, rfl, hf⟩, ?_⟩
    rintro ⟨_, _, heq, hf⟩
    cases heq
    exact hf

/-- **A walk that fails** does so at one entry, after all that are in front of it. -/
theorem foldlM_error {β : Type u} {f : β → α → EStateM ε σ β} {as : List α} {e : ε} :
    ∀ {b : β} {s t : σ}, as.foldlM f b s = .error e t → ∃ pre a post b' u,
      as = pre ++ a :: post ∧ pre.foldlM f b s = .ok b' u ∧ f b' a u = .error e t := by
  induction as with
  | nil => exact fun h => (pure_error_iff.1 h).elim
  | cons a as ih =>
    intro b s t h
    rw [List.foldlM_cons] at h
    rcases bind_error_iff.1 h with h | ⟨b₁, u, first, h⟩
    · exact ⟨[], a, as, b, s, rfl, rfl, h⟩
    · obtain ⟨pre, a', post, b', u', rfl, before, h⟩ := ih h
      refine ⟨a :: pre, a', post, b', u', rfl, ?_, h⟩
      rw [List.foldlM_cons]
      exact bind_ok_iff.2 ⟨b₁, u, first, before⟩

end Outcome

namespace Stratum

variable {s : Stratum} {r r' : Relation} {c : PlannedClause}

theorem firedBy_addRecursive :
    (s.addRecursive r c).firedBy r' = if r = r' then s.firedBy r ++ [c] else s.firedBy r' := by
  rw [firedBy, addRecursive, Assoc.get?_alter]
  split <;> rfl

end Stratum

namespace Plan

variable {mode : Unification} {fns : Functions} {heads : List Relation} {rule : Rule}
  {delta : Option Nat} {c : Clause} {st st' : PlanState} {pre post : List Literal} {a : Atom}

theorem compile_ok (ok : compile mode delta rule st = .ok c st') :
    rule.compile mode delta st.next = .ok c st'.next := by
  rw [compile] at ok
  split at ok
  · next h =>
    cases ok
    exact h
  · cases ok

theorem compile_yields (below : ∀ v ∈ rule.occurrences, v.number < st.next)
    (ok : compile mode delta rule st = .ok c st') :
    rule.Yields mode delta c ∧ st.next ≤ st'.next := by
  have h := compile_ok ok
  exact ⟨⟨_, _, below, h⟩, Rule.next_le_of_compile h⟩

/-- The numbers rise also if a rule is refused. -/
theorem next_le_of_refused {e : PlanError} (error : compile mode delta rule st = .error e st') :
    st.next ≤ st'.next := by
  rw [compile] at error
  split at error
  · cases error
  · next h =>
    cases error
    exact Rule.next_le_of_refused h

/-- Registering an index changes the store alone. -/
theorem next_of_indexOf {step : Step} {n : IndexNumber} (ok : indexOf step st = .ok n st') :
    st'.next = st.next := by
  have register {g : Goal} (ok : register g st = .ok n st') : st'.next = st.next := by
    rw [Plan.register] at ok
    split at ok
    · cases ok
      rfl
    · cases ok
  cases step with
  | lookup g =>
    rw [indexOf] at ok
    split at ok
    · obtain ⟨_, rfl⟩ := Outcome.pure_ok_iff.1 ok
      rfl
    · exact register ok
  | assign | check | destruct =>
    obtain ⟨_, rfl⟩ := Outcome.pure_ok_iff.1 ok
    rfl

theorem slots_ok {head : Head} {steps : List Step} {slots : List Slot}
    (ok : Plan.slots fns head steps st = .ok slots st') :
    slots.map Slot.step = steps ∧ st'.next = st.next := by
  induction steps generalizing st slots with
  | nil =>
    obtain ⟨rfl, rfl⟩ := Outcome.pure_ok_iff.1 ok
    exact ⟨rfl, rfl⟩
  | cons step steps ih =>
    obtain ⟨n, st₁, hindex, ok⟩ := Outcome.bind_ok_iff.1 ok
    obtain ⟨rest, st₂, hrest, ok⟩ := Outcome.bind_ok_iff.1 ok
    obtain ⟨rfl, rfl⟩ := Outcome.pure_ok_iff.1 ok
    obtain ⟨hsteps, hnext⟩ := ih hrest
    exact ⟨by rw [List.map_cons, hsteps], hnext.trans (next_of_indexOf hindex)⟩

/-- **Indexing** leaves the clause as it is. -/
theorem index_ok {p : PlannedClause} (ok : index fns c st = .ok p st') :
    p.clause = c ∧ st'.next = st.next := by
  obtain ⟨slots, st₁, hslots, ok⟩ := Outcome.bind_ok_iff.1 ok
  obtain ⟨rfl, rfl⟩ := Outcome.pure_ok_iff.1 ok
  obtain ⟨hsteps, hnext⟩ := slots_ok hslots
  refine ⟨?_, hnext⟩
  rw [PlannedClause.clause, hsteps]

theorem deltaClause_eq (body : rule.body = pre ++ .atom a :: post) :
    deltaClause mode rule pre.length (.atom a) = (do
      try compile mode (some 0) (rule.fronted pre a post)
      catch _ => compile mode (some pre.length) rule) := by
  have fronted : { rule with body := .atom a :: rule.body.eraseIdx pre.length } =
      rule.fronted pre a post := by
    rw [Rule.fronted, body, List.eraseIdx_append_of_length_le (Nat.le_refl _), Nat.sub_self]
    rfl
  rw [deltaClause, fronted]

/-- **A recursive clause** is a variant for its atom. -/
theorem deltaClause_ok (below : ∀ v ∈ rule.occurrences, v.number < st.next)
    (body : rule.body = pre ++ .atom a :: post)
    (ok : deltaClause mode rule pre.length (.atom a) st = .ok c st') :
    rule.Variant mode pre a post c ∧ st.next ≤ st'.next := by
  have below' : ∀ v ∈ (rule.fronted pre a post).occurrences, v.number < st.next :=
    fun v hv => below v ((Rule.perm_fronted body).mem_iff.1 hv)
  rw [deltaClause_eq body] at ok
  rcases Outcome.tryCatch_ok_iff.1 ok with ok | ⟨e, st₁, error, ok⟩
  · obtain ⟨yields, rises⟩ := compile_yields below' ok
    exact ⟨.front yields, rises⟩
  · have rises := next_le_of_refused error
    obtain ⟨yields, rises'⟩ :=
      compile_yields (fun v hv => Nat.lt_of_lt_of_le (below v hv) rises) ok
    exact ⟨.inPlace yields, Nat.le_trans rises rises'⟩

/-- Adds the recursive clause for the atom at a position, if it has one. -/
def addVariant (mode : Unification) (fns : Functions) (heads : List Relation) (rule : Rule)
    (stratum : Stratum) : Literal × Nat → Plan Stratum
  | (.atom a, i) => do
    if a.negated || !heads.contains a.relation then return stratum
    else
      return stratum.addRecursive a.relation (← index fns (← deltaClause mode rule i (.atom a)))
  | (.unify .., _) => return stratum

theorem addRule_eq {s : Stratum} : addRule mode fns heads s rule = (do
    let base ← index fns (← compile mode none rule)
    rule.body.zipIdx.foldlM (addVariant mode fns heads rule)
      { s with base := s.base ++ [base] }) := by
  refine bind_congr fun c => bind_congr fun base => ?_
  refine congrArg (fun f => rule.body.zipIdx.foldlM f _) ?_
  funext stratum ⟨l, i⟩
  cases l <;> rfl

end Plan

/-- **The clause is a variant of the rule** for one of its atoms over the relation. -/
def Rule.IsVariant (mode : Unification) (rule : Rule) (r : Relation) (v : Clause) : Prop :=
  ∃ pre a post, rule.body = pre ++ .atom a :: post ∧ a.negated = false ∧ a.relation = r ∧
    rule.Variant mode pre a post v

namespace Plan

variable {mode : Unification} {fns : Functions} {heads : List Relation} {rule : Rule}
  {st st' : PlanState} {s s' s'' : Stratum}

/-- **What is added for a rule**: variants of it, and one for each atom that is to have one, from
some position on. -/
structure Adds (mode : Unification) (heads : List Relation) (rule : Rule) (k : Nat)
    (s s' : Stratum) : Prop where
  base : s'.base = s.base
  old : ∀ r, ∀ v ∈ s.firedBy r, v ∈ s'.firedBy r
  new : ∀ r, ∀ v ∈ s'.firedBy r, v ∈ s.firedBy r ∨ rule.IsVariant mode r v.clause
  all : ∀ pre a post, rule.body = pre ++ .atom a :: post → k ≤ pre.length → a.negated = false →
    a.relation ∈ heads → ∃ v ∈ s'.firedBy a.relation, rule.Variant mode pre a post v.clause

/-- **A literal adds its variant**, if it has one. -/
theorem addVariant_ok {l : Literal} {done rest : List Literal}
    (below : ∀ v ∈ rule.occurrences, v.number < st.next) (body : rule.body = done ++ l :: rest)
    (ok : addVariant mode fns heads rule s (l, done.length) st = .ok s' st') :
    st.next ≤ st'.next ∧ s'.base = s.base ∧ (∀ r, ∀ v ∈ s.firedBy r, v ∈ s'.firedBy r) ∧
      (∀ r, ∀ v ∈ s'.firedBy r, v ∈ s.firedBy r ∨ rule.IsVariant mode r v.clause) ∧
      ∀ a, l = .atom a → a.negated = false → a.relation ∈ heads →
        ∃ v ∈ s'.firedBy a.relation, rule.Variant mode done a rest v.clause := by
  cases l with
  | unify l r negated =>
    obtain ⟨rfl, rfl⟩ := Outcome.pure_ok_iff.1 ok
    exact ⟨Nat.le_refl _, rfl, fun _ _ h => h, fun _ _ h => .inl h, nofun⟩
  | atom a =>
    rw [addVariant] at ok
    split at ok
    · next hskip =>
      obtain ⟨rfl, rfl⟩ := Outcome.pure_ok_iff.1 ok
      refine ⟨Nat.le_refl _, rfl, fun _ _ h => h, fun _ _ h => .inl h, ?_⟩
      rintro _ ⟨⟩ hn hr
      rw [hn, List.contains_iff_mem.2 hr] at hskip
      cases hskip
    · next hkeep =>
      have hn : a.negated = false := by
        by_contra h
        exact hkeep (by rw [Bool.not_eq_false] at h; rw [h, Bool.true_or])
      obtain ⟨c, st₁, hdelta, ok⟩ := Outcome.bind_ok_iff.1 ok
      obtain ⟨p, st₂, hindex, ok⟩ := Outcome.bind_ok_iff.1 ok
      obtain ⟨rfl, rfl⟩ := Outcome.pure_ok_iff.1 ok
      obtain ⟨variant, rises⟩ := deltaClause_ok below body hdelta
      obtain ⟨rfl, hnext⟩ := index_ok hindex
      refine ⟨hnext ▸ rises, rfl, fun r v hv => ?_, fun r v hv => ?_, ?_⟩
      · rw [Stratum.firedBy_addRecursive]
        split
        · next h => exact List.mem_append_left _ (h ▸ hv)
        · exact hv
      · rw [Stratum.firedBy_addRecursive] at hv
        split at hv
        · next h =>
          subst h
          refine (List.mem_append.1 hv).imp_right fun hv => ?_
          obtain rfl := List.mem_singleton.1 hv
          exact ⟨done, a, rest, body, hn, rfl, variant⟩
        · exact .inl hv
      · rintro _ ⟨⟩ _ _
        rw [Stratum.firedBy_addRecursive, if_pos rfl]
        exact ⟨p, List.mem_append_right _ (List.mem_singleton.2 rfl), variant⟩

theorem variants_ok {ls : List Literal} : ∀ {done : List Literal} {s : Stratum} {st : PlanState},
    (∀ v ∈ rule.occurrences, v.number < st.next) → rule.body = done ++ ls →
    (ls.zipIdx done.length).foldlM (addVariant mode fns heads rule) s st = .ok s' st' →
    st.next ≤ st'.next ∧ Adds mode heads rule done.length s s' := by
  induction ls with
  | nil =>
    intro done s st _ body ok
    obtain ⟨rfl, rfl⟩ := Outcome.pure_ok_iff.1 ok
    refine ⟨Nat.le_refl _, rfl, fun _ _ h => h, fun _ _ h => .inl h, fun pre a post body' hk => ?_⟩
    have hlen := congrArg List.length (body.symm.trans body')
    rw [List.append_nil, List.length_append, List.length_cons] at hlen
    omega
  | cons l ls ih =>
    intro done s st below body ok
    rw [List.zipIdx_cons, List.foldlM_cons] at ok
    obtain ⟨s₁, st₁, first, ok⟩ := Outcome.bind_ok_iff.1 ok
    obtain ⟨rises, base, old, new, here⟩ := addVariant_ok below body first
    have body' : rule.body = (done ++ [l]) ++ ls := by
      rw [List.append_assoc]
      exact body
    have hlen : (done ++ [l]).length = done.length + 1 := List.length_append
    rw [← hlen] at ok
    obtain ⟨rises', adds⟩ := ih (fun v hv => Nat.lt_of_lt_of_le (below v hv) rises) body' ok
    refine ⟨Nat.le_trans rises rises', adds.base.trans base,
      fun r v hv => adds.old r v (old r v hv), fun r v hv => ?_,
      fun pre a post hbody hk hn hr => ?_⟩
    · exact (adds.new r v hv).elim (new r v) .inr
    · rcases Nat.eq_or_lt_of_le hk with hk | hk
      · obtain ⟨rfl, e⟩ := List.append_inj (body.symm.trans hbody) hk
        obtain ⟨rfl, rfl⟩ := List.cons.inj e
        obtain ⟨v, hv, variant⟩ := here a rfl hn hr
        exact ⟨v, adds.old _ v hv, variant⟩
      · exact adds.all pre a post hbody (hlen ▸ hk) hn hr

/-- **A rule adds a base clause and its variants.** -/
theorem addRule_ok (below : ∀ v ∈ rule.occurrences, v.number < st.next)
    (ok : addRule mode fns heads s rule st = .ok s' st') :
    st.next ≤ st'.next ∧ ∃ c : PlannedClause, rule.Yields mode none c.clause ∧
      Adds mode heads rule 0 { s with base := s.base ++ [c] } s' := by
  rw [addRule_eq] at ok
  obtain ⟨c, st₁, hcompile, ok⟩ := Outcome.bind_ok_iff.1 ok
  obtain ⟨p, st₂, hindex, fold⟩ := Outcome.bind_ok_iff.1 ok
  obtain ⟨yields, rises⟩ := compile_yields below hcompile
  obtain ⟨rfl, hnext⟩ := index_ok hindex
  rw [← hnext] at rises
  have body : rule.body = [] ++ rule.body := rfl
  obtain ⟨rises', adds⟩ :=
    variants_ok (fun v hv => Nat.lt_of_lt_of_le (below v hv) rises) body fold
  exact ⟨Nat.le_trans rises rises', p, yields, adds⟩

end Plan

namespace Stratum

variable {mode : Unification} {fns : Functions} {heads : List Relation} {rules : List Rule}
  {s s' : Stratum} {st st' : PlanState}

/-- **Every clause is there for a rule**, and every rule has its clauses: a base clause with all of
its variants. -/
structure Linked (mode : Unification) (heads : List Relation) (rules : List Rule) (s : Stratum) :
    Prop where
  base : ∀ c ∈ s.base, ∃ rule ∈ rules, rule.Yields mode none c.clause
  recursive : ∀ r, ∀ v ∈ s.firedBy r, ∃ c ∈ s.base, ∃ rule ∈ rules,
    rule.Yields mode none c.clause ∧ rule.IsVariant mode r v.clause
  rules : ∀ rule ∈ rules, ∃ c ∈ s.base, rule.Yields mode none c.clause ∧
    ∀ pre a post, rule.body = pre ++ .atom a :: post → a.negated = false → a.relation ∈ heads →
      ∃ v ∈ s.firedBy a.relation, rule.Variant mode pre a post v.clause

theorem linked_empty : Linked mode heads [] {} := ⟨nofun, nofun, nofun⟩

/-- **One more rule.** -/
theorem Linked.addRule {rule : Rule} (h : s.Linked mode heads rules)
    (below : ∀ v ∈ rule.occurrences, v.number < st.next)
    (ok : Plan.addRule mode fns heads s rule st = .ok s' st') :
    st.next ≤ st'.next ∧ s'.Linked mode heads (rules ++ [rule]) := by
  obtain ⟨rises, p, yields, adds⟩ := Plan.addRule_ok below ok
  have last : rule ∈ rules ++ [rule] := List.mem_append_right _ (List.mem_singleton.2 rfl)
  refine ⟨rises, fun c hc => ?_, fun r v hv => ?_, fun rule' hrule' => ?_⟩
  · rw [adds.base] at hc
    rcases List.mem_append.1 hc with hc | hc
    · obtain ⟨rule', hrule', yields'⟩ := h.base c hc
      exact ⟨rule', List.mem_append_left _ hrule', yields'⟩
    · obtain rfl := List.mem_singleton.1 hc
      exact ⟨rule, last, yields⟩
  · rw [adds.base]
    rcases adds.new r v hv with hv | variant
    · obtain ⟨c, hc, rule', hrule', h⟩ := h.recursive r v hv
      exact ⟨c, List.mem_append_left _ hc, rule', List.mem_append_left _ hrule', h⟩
    · exact ⟨p, List.mem_append_right _ (List.mem_singleton.2 rfl), rule, last, yields, variant⟩
  · rw [adds.base]
    rcases List.mem_append.1 hrule' with hrule' | hrule'
    · obtain ⟨c, hc, yields', all⟩ := h.rules rule' hrule'
      refine ⟨c, List.mem_append_left _ hc, yields', fun pre a post body hn hr => ?_⟩
      obtain ⟨v, hv, variant⟩ := all pre a post body hn hr
      exact ⟨v, adds.old _ v hv, variant⟩
    · obtain rfl := List.mem_singleton.1 hrule'
      exact ⟨p, List.mem_append_right _ (List.mem_singleton.2 rfl), yields,
        fun pre a post body hn hr => adds.all pre a post body (Nat.zero_le _) hn hr⟩

/-- **More rules, one after the other.** -/
theorem Linked.addRules {todo : List Rule} : ∀ {done : List Rule} {s s' : Stratum}
    {st st' : PlanState}, s.Linked mode heads done →
    (∀ rule ∈ todo, ∀ v ∈ rule.occurrences, v.number < st.next) →
    todo.foldlM (Plan.addRule mode fns heads) s st = .ok s' st' →
    s'.Linked mode heads (done ++ todo) ∧ st.next ≤ st'.next := by
  induction todo with
  | nil =>
    intro done s s' st st' h _ ok
    obtain ⟨rfl, rfl⟩ := Outcome.pure_ok_iff.1 ok
    exact ⟨by rwa [List.append_nil], Nat.le_refl _⟩
  | cons rule todo ih =>
    intro done s s' st st' h below ok
    rw [List.foldlM_cons] at ok
    obtain ⟨s₁, st₁, first, rest⟩ := Outcome.bind_ok_iff.1 ok
    obtain ⟨rises, h₁⟩ := h.addRule (below rule (List.mem_cons_self ..)) first
    obtain ⟨linked, rises'⟩ := ih h₁ (fun rule' hr v hv => Nat.lt_of_lt_of_le
      (below rule' (List.mem_cons_of_mem _ hr) v hv) rises) rest
    exact ⟨by rwa [List.append_cons], Nat.le_trans rises rises'⟩

/-- **Planning links the clauses of all rules.** -/
theorem linked_of_plan (below : ∀ rule ∈ rules, ∀ v ∈ rule.occurrences, v.number < st.next)
    (ok : plan mode fns rules st = .ok s st') :
    s.Linked mode (rules.map (·.head.relation)) rules ∧ st.next ≤ st'.next :=
  linked_empty.addRules below ok

/-! ## What evaluation relies on -/

/-- The clause is one of the stratum's. -/
def Has (s : Stratum) (c : PlannedClause) : Prop := c ∈ s.base ∨ ∃ r, c ∈ s.firedBy r

/-- What new tuples of the relation set off stands in its entry. -/
theorem exists_of_mem_firedBy {r : Relation} {c : PlannedClause} (h : c ∈ s.firedBy r) :
    ∃ cs, (r, cs) ∈ s.recursive.entries ∧ c ∈ cs := by
  rw [firedBy] at h
  cases hr : s.recursive.get? r with
  | none =>
    rw [hr] at h
    cases h
  | some cs =>
    rw [hr] at h
    exact ⟨cs, Assoc.get?_eq_some_iff.1 hr, h⟩

/-- The stratum derives the relation. -/
def Heads (s : Stratum) (r : Relation) : Prop := ∃ k ∈ s.base, k.head.relation = r

/-- **The rules admit the tuple** for the relation. -/
def admitted (fns : Functions) (rules : List Rule) (start F : Facts) : Facts :=
  fun r tuple => ∃ rule ∈ rules, rule.head.relation = r ∧ rule.Admits fns start F tuple

/-- **New tuples set off the differences.**  A clause that is set off derives only what a base
clause derives.  Whatever the rules admit is due in a base clause, and what a new tuple adds to it
is due in a clause that it sets off.  Negated goals ask for relations that the stratum does not
derive. -/
structure Differential (fns : Functions) (rules : List Rule) (start : Facts) (s : Stratum) :
    Prop where
  orderly : ∀ c, s.Has c → c.clause.Orderly
  heads : ∀ c, s.Has c → s.Heads c.head.relation
  static : ∀ c, s.Has c → ∀ g, .lookup g ∈ c.clause.body → g.negated = true → ¬s.Heads g.relation
  marked : ∀ r, ∀ v ∈ s.firedBy r, ∀ g, .lookup g ∈ v.clause.body → g.delta = true →
    g.relation = r
  sound : ∀ r, ∀ v ∈ s.firedBy r, ∀ F seed tuple, Facts.Measured F → (∀ t, seed t → F r t) →
    v.clause.Derives (.onSeed fns start F seed) tuple →
      ∃ c ∈ s.base, c.head.relation = v.head.relation ∧
        c.clause.Derives (.over fns start F) tuple
  due : ∀ F r tuple, Facts.Measured F → admitted fns rules start F r tuple →
    ∃ c ∈ s.base, c.head.relation = r ∧ c.head.Due (.over fns start F) c.clause.body ∅ tuple
  complete : ∀ F G r x r' tuple, Facts.Measured G → s.Heads r →
    (∀ r' t, G r' t → F r' t ∨ r' = r ∧ t = x) → admitted fns rules start G r' tuple →
      admitted fns rules start F r' tuple ∨
        ∃ v ∈ s.firedBy r, v.head.relation = r' ∧
          v.head.Due (.onSeed fns start G (· = x)) v.clause.body ∅ tuple

/-- **Nothing need be asked of a stratum.** -/
theorem Differential.none {start : Facts} (h : s.Differential fns rules start) :
    s.Differential fns [] start :=
  { h with
    due := by
      rintro _ _ _ _ ⟨_, ⟨⟩, _⟩
    complete := by
      rintro _ _ _ _ _ _ _ _ _ ⟨_, ⟨⟩, _⟩ }

/-- The head of a clause is that of its rule. -/
theorem relation_of_yields {rule : Rule} {delta : Option Nat} {c : PlannedClause}
    (h : rule.Yields mode delta c.clause) : c.head.relation = rule.head.relation := by
  obtain ⟨_, _, compiled, _⟩ := h.exists_compiled
  exact congrArg Head.relation compiled.head

theorem relation_of_variant {rule : Rule} {pre post : List Literal} {a : Atom} {v : PlannedClause}
    (body : rule.body = pre ++ .atom a :: post) (h : rule.Variant mode pre a post v.clause) :
    v.head.relation = rule.head.relation := by
  obtain ⟨turned, delta, turns, yields⟩ := h.exists_turned body
  rw [relation_of_yields yields, turns.head]

/-- A planned stratum derives the relations of the rules' heads. -/
theorem Linked.heads_iff (h : s.Linked mode heads rules) {r : Relation} :
    s.Heads r ↔ r ∈ rules.map (·.head.relation) := by
  constructor
  · rintro ⟨k, hk, rfl⟩
    obtain ⟨rule, hrule, yields⟩ := h.base k hk
    exact List.mem_map.2 ⟨rule, hrule, (relation_of_yields yields).symm⟩
  · intro hr
    obtain ⟨rule, hrule, rfl⟩ := List.mem_map.1 hr
    obtain ⟨k, hk, yields, _⟩ := h.rules rule hrule
    exact ⟨k, hk, relation_of_yields yields⟩

/-- **What the base clauses derive** the rules admit. -/
theorem Linked.admitted_of_derives {F start : Facts} {tuple : Tuple}
    (h : s.Linked mode heads rules) (hF : F.Measured) (hs : start.Measured) {c : PlannedClause}
    (hc : c ∈ s.base) (hd : c.clause.Derives (.over fns start F) tuple) :
    admitted fns rules start F c.head.relation tuple := by
  obtain ⟨rule, hrule, yields⟩ := h.base c hc
  exact ⟨rule, hrule, (relation_of_yields yields).symm, Rule.admits_of_derives yields hF hs hd⟩

/-- **Linked clauses are in order.** -/
theorem Linked.orderly (h : s.Linked mode heads rules) {c : PlannedClause} (hc : s.Has c) :
    c.clause.Orderly := by
  rcases hc with hc | ⟨r, hc⟩
  · obtain ⟨rule, _, yields⟩ := h.base c hc
    exact yields.orderly
  · obtain ⟨_, _, rule, _, _, pre, a, post, body, _, _, variant⟩ := h.recursive r c hc
    exact variant.orderly body

/-- **Linked clauses are differences**, if no atom of a derived relation is negated. -/
theorem Linked.differential {start : Facts} (h : s.Linked mode (rules.map (·.head.relation)) rules)
    (static : ∀ rule ∈ rules, ∀ a, .atom a ∈ rule.body → a.negated = true →
      a.relation ∉ rules.map (·.head.relation)) (hs : start.Measured) :
    s.Differential fns rules start := by
  refine ⟨fun c => h.orderly, ?_, ?_, ?_, ?_, ?_, ?_⟩
  · rintro c (hc | ⟨r, hc⟩)
    · exact ⟨c, hc, rfl⟩
    · obtain ⟨k, hk, rule, _, yields, pre, a, post, body, _, _, variant⟩ := h.recursive r c hc
      exact ⟨k, hk, (relation_of_yields yields).trans (relation_of_variant body variant).symm⟩
  · rintro c (hc | ⟨r, hc⟩) g hg hn hr
    · obtain ⟨rule, hrule, yields⟩ := h.base c hc
      obtain ⟨b, hb, asks⟩ := yields.asks hg
      exact static rule hrule b hb (asks.negated ▸ hn) (h.heads_iff.1 (asks.relation ▸ hr))
    · obtain ⟨_, _, rule, hrule, _, pre, a, post, body, _, _, variant⟩ := h.recursive r c hc
      obtain ⟨b, _, hb, asks, _⟩ := variant.asks body hg
      exact static rule hrule b hb (asks.negated ▸ hn) (h.heads_iff.1 (asks.relation ▸ hr))
  · intro r v hv g hg hdelta
    obtain ⟨_, _, rule, _, _, pre, a, post, body, _, rfl, variant⟩ := h.recursive r v hv
    exact variant.relation_of_delta body hg hdelta
  · intro r v hv F seed tuple hF hseed hd
    obtain ⟨c, hc, rule, _, yields, pre, a, post, body, _, rfl, variant⟩ := h.recursive r v hv
    refine ⟨c, hc, (relation_of_yields yields).trans (relation_of_variant body variant).symm, ?_⟩
    exact Rule.derives_of_variant body yields variant hF hs hseed hd
  · rintro F r tuple hF ⟨rule, hrule, rfl, admits⟩
    obtain ⟨c, hc, yields, _⟩ := h.rules rule hrule
    exact ⟨c, hc, relation_of_yields yields, admits.due yields hF hs⟩
  · rintro F G r x r' tuple hG hr hnew ⟨rule, hrule, rfl, admits⟩
    obtain ⟨c, hc, yields, all⟩ := h.rules rule hrule
    refine (admits.or_due hG hs hnew).imp (fun admits => ⟨rule, hrule, rfl, admits⟩) ?_
    rintro ⟨pre, a, post, body, hn, rfl, due⟩
    obtain ⟨v, hv, variant⟩ := all pre a post body hn (h.heads_iff.1 hr)
    exact ⟨v, hv, relation_of_variant body variant, due _ _ variant⟩

end Stratum

end Datalog
