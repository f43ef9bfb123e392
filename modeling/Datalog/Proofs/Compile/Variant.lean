import Datalog.Meaning.Closure
import Datalog.Proofs.Compile.Calls

/-!
# Proofs/Compile/Variant — the clauses that new tuples set off

A rule is compiled once more for an atom of its body, to be run on new tuples of the atom's
relation; that atom goes to the front or stays where it is.  Such a variant derives from a seed
only what the base clause derives (`Rule.derives_of_variant`).  And whatever new facts add to what
the rule admits is due in one of the variants, seeded with them (`Rule.Admits.or_due_seeded`).
-/

namespace Datalog

open Compile (Single)

variable {mode mode' : Unification} {single : Var → Prop} {s s' : Scene} {strict : Bool} {ρ : Env}
  {rule : Rule} {pre post : List Literal} {a : Atom} {l : Literal}

/-! ## Literals in other scenes -/

namespace Literal

variable {seen seen' : List Var} {delta delta' : Bool} {ls ms : List (Literal × Bool)}

/-- Whatever fits with more variables seen fits with fewer. -/
theorem Fits.anti (h : l.Fits mode single s seen delta strict ρ) (hs : seen' ⊆ seen) :
    l.Fits mode single s seen' delta strict ρ := by
  cases l with
  | atom a => exact h
  | unify l r negated =>
    cases negated with
    | true => exact h
    | false =>
      obtain ⟨form, known, fits, hk⟩ := h
      exact ⟨form, known, fits, fun e => ⟨(hk e).1, List.Subset.trans hs (hk e).2⟩⟩

/-- **The lax form** depends neither on the mode nor on what has been seen. -/
theorem Fits.lax (h : l.Fits mode single s seen delta strict ρ) :
    l.Fits mode' single s seen' delta false ρ := by
  cases l with
  | atom a => exact h
  | unify l r negated =>
    cases negated with
    | true => exact h
    | false =>
      obtain ⟨form, known, fits, _⟩ := h
      exact ⟨form, known, fits, nofun⟩

/-- **Another scene does as well** if it gives a tuple that the atom matches. -/
theorem Fits.rescene (h : l.Fits mode single s seen delta strict ρ)
    (functions : s'.functions = s.functions) (absent : s'.absent = s.absent)
    (gives : ∀ a, l = .atom a → a.negated = false → ∀ t, a.Matches single s.functions ρ t →
      s.Gives delta a.relation t → ∃ t, a.Matches single s.functions ρ t ∧
        s'.Gives delta' a.relation t) :
    l.Fits mode single s' seen delta' strict ρ := by
  cases l with
  | atom a =>
    rw [Fits, Atom.Fits] at h ⊢
    rw [functions, absent]
    split at h
    · next hn =>
      rw [if_pos hn]
      exact h
    · next hn =>
      rw [if_neg hn]
      obtain ⟨t, ht, hmatches⟩ := h
      obtain ⟨t', hmatches', ht'⟩ := gives a rfl (by simpa using hn) t hmatches ht
      exact ⟨t', ht', hmatches'⟩
  | unify l r negated =>
    cases negated with
    | true =>
      rw [Fits] at h ⊢
      rwa [functions]
    | false =>
      rw [Fits] at h ⊢
      rwa [functions]

theorem allFit_append_iff : AllFit mode single s strict ρ seen (ls ++ ms) ↔
    AllFit mode single s strict ρ seen ls ∧
      AllFit mode single s strict ρ (seen ++ ls.flatMap fun e => e.1.occurrences) ms := by
  induction ls generalizing seen with
  | nil =>
    rw [List.nil_append, List.flatMap_nil, List.append_nil]
    exact ⟨fun h => ⟨trivial, h⟩, fun h => h.2⟩
  | cons e ls ih =>
    rw [List.cons_append, AllFit, AllFit, ih, List.flatMap_cons, List.append_assoc, and_assoc]

/-- **Literals that fit in one scene** fit in another with fewer variables seen, if each of them
does. -/
theorem AllFit.imp (h : AllFit mode single s strict ρ seen ls) (hs : seen' ⊆ seen)
    (each : ∀ e ∈ ls, ∀ seen, e.1.Fits mode single s seen e.2 strict ρ →
      e.1.Fits mode single s' seen e.2 strict ρ) :
    AllFit mode single s' strict ρ seen' ls := by
  induction ls generalizing seen seen' with
  | nil => trivial
  | cons e ls ih =>
    refine ⟨(each e (List.mem_cons_self ..) seen h.1).anti hs, ?_⟩
    refine ih h.2 (List.append_subset.2 ⟨?_, List.subset_append_right ..⟩)
      fun o ho => each o (List.mem_cons_of_mem _ ho)
    exact fun v hv => List.mem_append_left _ (hs hv)

end Literal

/-! ## Marks -/

namespace Rule

theorem marked_none (rule : Rule) : rule.marked none = rule.body.map fun l => (l, false) := by
  rw [marked]
  conv_rhs => rw [← List.zipIdx_map_fst 0 rule.body, List.map_map]
  rfl

/-- The mark is at its position and nowhere else. -/
theorem marked_some (body : rule.body = pre ++ l :: post) :
    rule.marked (some pre.length) =
      (pre.map fun l => (l, false)) ++ (l, true) :: post.map fun l => (l, false) := by
  have apart {ls : List Literal} {k : Nat} (h : ∀ i, k ≤ i → i < k + ls.length → pre.length ≠ i) :
      ((ls.zipIdx k).map fun e => (e.1, decide (some pre.length = some e.2))) =
        ls.map fun l => (l, false) := by
    conv_rhs => rw [← List.zipIdx_map_fst k ls, List.map_map]
    refine List.map_congr_left fun e he => ?_
    obtain ⟨hk, hlt, _⟩ := List.mem_zipIdx (x := e.1) (i := e.2) he
    simp [h e.2 hk hlt]
  rw [marked, body, List.zipIdx_append, List.map_append, List.zipIdx_cons, List.map_cons, apart,
    apart]
  · simp
  · intro i hi _
    omega
  · intro i _ hi
    omega

/-! ## Variants -/

/-- **Compilation yields the clause**, with variables that the rule does not have. -/
def Yields (mode : Unification) (delta : Option Nat) (rule : Rule) (c : Clause) : Prop :=
  ∃ next next', (∀ v ∈ rule.occurrences, v.number < next) ∧
    rule.compile mode delta next = .ok c next'

/-- What is known of the clause. -/
theorem Yields.exists_compiled {delta : Option Nat} {c : Clause} (h : rule.Yields mode delta c) :
    ∃ next d, rule.Compiled mode delta next c d ∧ d.From rule.calls (rule.Asked delta) := by
  obtain ⟨next, next', below, ok⟩ := h
  obtain ⟨d, ok⟩ := clause_of_compile ok
  exact ⟨next, d, compiled_of_clause below ok, (from_of_clause ok).1⟩

theorem Yields.orderly {delta : Option Nat} {c : Clause} (h : rule.Yields mode delta c) :
    c.Orderly := by
  obtain ⟨_, _, compiled, _⟩ := h.exists_compiled
  exact compiled.orderly

/-- The rule with the atom in front of the other literals. -/
def fronted (rule : Rule) (pre : List Literal) (a : Atom) (post : List Literal) : Rule :=
  { rule with body := .atom a :: (pre ++ post) }

/-- **A variant of the rule for an atom of its body**, which goes to the front or stays. -/
inductive Variant (mode : Unification) (rule : Rule) (pre : List Literal) (a : Atom)
    (post : List Literal) : Clause → Prop
  | front {c : Clause} (h : (rule.fronted pre a post).Yields mode (some 0) c) :
      Variant mode rule pre a post c
  | inPlace {c : Clause} (h : rule.Yields mode (some pre.length) c) : Variant mode rule pre a post c

/-- The marked literals of a variant that leaves the atom in its place. -/
def markedAt (pre : List Literal) (a : Atom) (post : List Literal) : List (Literal × Bool) :=
  (pre.map fun l => (l, false)) ++ (.atom a, true) :: post.map fun l => (l, false)

theorem mem_markedAt {mark : Bool} : (l, mark) ∈ markedAt pre a post ↔
    (mark = true ∧ l = .atom a) ∨ (mark = false ∧ l ∈ pre ++ post) := by
  have unmarked {ls : List Literal} : (l, mark) ∈ ls.map (fun l => (l, false)) ↔
      mark = false ∧ l ∈ ls := by
    simp [and_comm, eq_comm]
  rw [markedAt, List.mem_append, List.mem_cons, unmarked, unmarked, Prod.mk.injEq, List.mem_append,
    and_or_left, or_left_comm, and_comm (a := l = _)]

theorem perm_fronted (body : rule.body = pre ++ .atom a :: post) :
    (rule.fronted pre a post).occurrences.Perm rule.occurrences := by
  rw [occurrences, occurrences, body]
  exact .append_left _ (List.Perm.flatMap_right _ List.perm_middle.symm)

theorem single_fronted (body : rule.body = pre ++ .atom a :: post) :
    Single (rule.fronted pre a post) = Single rule := by
  funext v
  rw [Single, Single, isSingleton, isSingleton, (perm_fronted body).count_eq]

/-- **What a variant was compiled from**: a rule with the same head whose literals say, one after
the other, no less than the literals in their places, and no more if nothing has to be strict. -/
structure Turned (mode : Unification) (rule : Rule) (pre : List Literal) (a : Atom)
    (post : List Literal) (turned : Rule) (delta : Option Nat) : Prop where
  head : turned.head = rule.head
  single : Single turned = Single rule
  mem_marked : ∀ e, e ∈ turned.marked delta ↔ e ∈ markedAt pre a post
  inPlace : ∀ {s : Scene} {ρ : Env},
    Literal.AllFit mode (Single rule) s true ρ [] (turned.marked delta) →
    Literal.AllFit mode (Single rule) s true ρ [] (markedAt pre a post)

theorem Variant.exists_turned {v : Clause} (body : rule.body = pre ++ .atom a :: post)
    (h : rule.Variant mode pre a post v) :
    ∃ turned delta, Turned mode rule pre a post turned delta ∧ turned.Yields mode delta v := by
  cases h with
  | inPlace h =>
    have marked : rule.marked (some pre.length) = markedAt pre a post := marked_some body
    refine ⟨rule, _, ⟨rfl, rfl, fun e => ?_, fun fits => ?_⟩, h⟩
    · rw [marked]
    · rwa [marked] at fits
  | front h =>
    have body' : (rule.fronted pre a post).body = [] ++ .atom a :: (pre ++ post) := rfl
    have marked : (rule.fronted pre a post).marked (some 0) =
        (.atom a, true) :: ((pre.map fun l => (l, false)) ++ post.map fun l => (l, false)) := by
      rw [← List.map_append]
      exact marked_some body'
    refine ⟨rule.fronted pre a post, some 0,
      ⟨rfl, single_fronted body, fun e => ?_, fun fits => ?_⟩, h⟩
    · rw [marked]
      exact List.perm_middle.symm.mem_iff
    · -- moved back, the atom is seen later by what was in front of it
      rw [marked, Literal.AllFit, Literal.allFit_append_iff, List.nil_append] at fits
      obtain ⟨atom, before, after⟩ := fits
      refine Literal.allFit_append_iff.2 ⟨before.imp (List.nil_subset _) fun _ _ _ h => h, ?_⟩
      refine ⟨atom, after.imp ?_ fun _ _ _ h => h⟩
      rw [List.nil_append]
      exact (List.perm_append_comm).subset

theorem Variant.orderly {v : Clause} (h : rule.Variant mode pre a post v)
    (body : rule.body = pre ++ .atom a :: post) : v.Orderly := by
  obtain ⟨_, _, _, yields⟩ := h.exists_turned body
  exact yields.orderly

end Rule

/-! ## The atoms that clauses ask for -/

namespace Rule

variable {c v : Clause} {g : Goal}

/-- A base clause asks for the atoms of the body. -/
theorem Yields.asks (h : rule.Yields mode none c) (hg : .lookup g ∈ c.body) :
    ∃ b, .atom b ∈ rule.body ∧ g.Asks false b := by
  obtain ⟨_, d, compiled, held⟩ := h.exists_compiled
  obtain ⟨b, mark, hb, asks⟩ := held.goals g (compiled.body ▸ hg)
  rw [marked_none] at hb
  obtain ⟨l, hl, e⟩ := List.mem_map.1 hb
  obtain ⟨rfl, rfl⟩ := Prod.mk.inj e
  exact ⟨b, hl, asks⟩

/-- **A variant asks for the atoms of the body**, and for its own one among new tuples. -/
theorem Variant.asks (h : rule.Variant mode pre a post v) (body : rule.body = pre ++ .atom a :: post)
    (hg : .lookup g ∈ v.body) :
    ∃ b mark, .atom b ∈ rule.body ∧ g.Asks mark b ∧ (mark = true → b = a) := by
  obtain ⟨turned, delta, turns, yields⟩ := h.exists_turned body
  obtain ⟨_, d, compiled, held⟩ := yields.exists_compiled
  obtain ⟨b, mark, hb, asks⟩ := held.goals g (compiled.body ▸ hg)
  rcases mem_markedAt.1 ((turns.mem_marked _).1 hb) with ⟨rfl, e⟩ | ⟨rfl, hmem⟩
  · cases e
    refine ⟨a, true, ?_, asks, fun _ => rfl⟩
    rw [body]
    exact List.mem_append_right _ (List.mem_cons_self ..)
  · refine ⟨b, false, ?_, asks, nofun⟩
    rw [body]
    exact List.perm_middle.symm.mem_iff.1 (List.mem_cons_of_mem _ hmem)

/-- What a variant looks up among new tuples is the relation of its atom. -/
theorem Variant.relation_of_delta (h : rule.Variant mode pre a post v)
    (body : rule.body = pre ++ .atom a :: post) (hg : .lookup g ∈ v.body) (delta : g.delta = true) :
    g.relation = a.relation := by
  obtain ⟨b, mark, _, asks, own⟩ := h.asks body hg
  rw [asks.relation, own (asks.delta ▸ delta)]

end Rule

/-! ## What variants derive -/

/-- **Every tuple has the arity of its relation.** -/
def Facts.Measured (F : Facts) : Prop := ∀ r t, F r t → t.length = r.arity

/-- **The scene in which clauses are run on new tuples.** -/
def Scene.onSeed (fns : Functions) (start F : Facts) (seed : Tuple → Prop) : Scene :=
  { Scene.over fns start F with seed := some seed }

namespace Rule

variable {fns : Functions} {start F G : Facts} {seed : Tuple → Prop} {tuple x : Tuple} {c v : Clause}

theorem measures_base (hF : F.Measured) (hs : start.Measured) {ls : List (Literal × Bool)} :
    (Scene.over fns start F).MeasuresAll ls := by
  exact fun b _ _ => ⟨fun t ht => hF b.relation t (Scene.gives_over_iff.1 ht), hs b.relation⟩

theorem measures_seeded (hF : F.Measured) (hs : start.Measured)
    (hseed : ∀ t, seed t → t.length = a.relation.arity) {ls : List (Literal × Bool)}
    (hls : ∀ e, e ∈ ls ↔ e ∈ markedAt pre a post) :
    (Scene.onSeed fns start F seed).MeasuresAll ls := by
  refine fun b mark he => ⟨fun t ht => ?_, hs b.relation⟩
  rcases mem_markedAt.1 ((hls _).1 he) with ⟨rfl, e⟩ | ⟨rfl, _⟩
  · cases e
    exact hseed t ht
  · exact hF _ t ht

/-- An unmarked literal does not see the seed. -/
theorem fits_over_iff {seen : List Var} :
    l.Fits mode single (.onSeed fns start F seed) seen false strict ρ ↔
      l.Fits mode single (.over fns start F) seen false strict ρ :=
  ⟨fun h => h.rescene rfl rfl fun _ _ _ t hm ht => ⟨t, hm, ht⟩,
    fun h => h.rescene rfl rfl fun _ _ _ t hm ht => ⟨t, hm, ht⟩⟩

/-- **The head's value** carries over between clauses of rules with the same head. -/
theorem evaluate_head {turned : Rule} {delta delta' : Option Nat} {next next' : Nat} {d d' : Draft}
    {b b' : Bindings} (compiled : rule.Compiled mode delta next c d)
    (compiled' : turned.Compiled mode delta' next' v d') (head : turned.head = rule.head)
    (hm : d.Matches fns next b ρ) (hm' : d'.Matches fns next' b' ρ) :
    Tuple.evaluate b fns c.head.args = .ok tuple ↔ Tuple.evaluate b' fns v.head.args = .ok tuple := by
  rw [Tuple.evaluate_eq_ok_iff, Tuple.evaluate_eq_ok_iff, compiled.head_values hm,
    compiled'.head_values hm', head]

/-- **A variant derives from known tuples what the base clause derives.** -/
theorem derives_of_variant (body : rule.body = pre ++ .atom a :: post)
    (base : rule.Yields mode none c) (variant : rule.Variant mode pre a post v)
    (hF : F.Measured) (hs : start.Measured) (hseed : ∀ t, seed t → F a.relation t)
    (h : v.Derives (.onSeed fns start F seed) tuple) : c.Derives (.over fns start F) tuple := by
  obtain ⟨next, d, compiled, _⟩ := base.exists_compiled
  obtain ⟨turned, delta, turns, yields⟩ := variant.exists_turned body
  obtain ⟨next₁, d₁, compiled₁, _⟩ := yields.exists_compiled
  obtain ⟨b, path, value⟩ := h
  have hm : d₁.Matches fns next₁ b (d₁.env fns b) := fun _ _ _ => rfl
  have measures : (Scene.onSeed fns start F seed).MeasuresAll (turned.marked delta) :=
    measures_seeded hF hs (fun t ht => hF _ t (hseed t ht)) turns.mem_marked
  have fits := compiled₁.allFit measures path hm
  rw [turns.single] at fits
  have inPlace := turns.inPlace fits
  have unmarked (ls : List Literal) : ∀ e ∈ ls.map fun l => (l, false), ∀ seen,
      e.1.Fits mode (Single rule) (.onSeed fns start F seed) seen e.2 true (d₁.env fns b) →
      e.1.Fits mode (Single rule) (.over fns start F) seen e.2 true (d₁.env fns b) := by
    rintro _ he seen
    obtain ⟨l, _, rfl⟩ := List.mem_map.1 he
    exact fits_over_iff.1
  have fits' : Literal.AllFit mode (Single rule) (.over fns start F) true (d₁.env fns b) []
      (rule.marked none) := by
    rw [marked_none, body, List.map_append, List.map_cons]
    obtain ⟨before, atom, after⟩ := Literal.allFit_append_iff.1 inPlace
    refine Literal.allFit_append_iff.2 ⟨before.imp (List.Subset.refl _) (unmarked pre), ?_,
      after.imp (List.Subset.refl _) (unmarked post)⟩
    exact atom.rescene rfl rfl fun _ e _ t hm ht => ⟨t, hm, by cases e; exact hseed t ht⟩
  rcases compiled.path_or_breaks (measures_base hF hs) fits' with ⟨b', path', hm'⟩ | ⟨_, h⟩
  · exact ⟨b', path', (evaluate_head compiled compiled₁ turns.head hm' hm).2 value⟩
  · cases h

/-! ## What rules admit -/

/-- **The rule admits the tuple**: some environment fits the body in the lax form and gives the head
the tuple as its values.  Neither the mode nor the order of the literals matters. -/
def Admits (fns : Functions) (start F : Facts) (rule : Rule) (tuple : Tuple) : Prop :=
  ∃ ρ : Env, (∀ l ∈ rule.body, l.Fits .inline (Single rule) (.over fns start F) [] false false ρ) ∧
    Term.values? ρ fns rule.head.args = some tuple

/-- **Whatever fits in the lax form is due.** -/
theorem Compiled.due {delta : Option Nat} {old : Nat} {d : Draft}
    (h : rule.Compiled mode delta old c d) (measures : s.MeasuresAll (rule.marked delta))
    (fits : ∀ e ∈ rule.marked delta, e.1.Fits .inline (Single rule) s [] e.2 false ρ)
    (value : Term.values? ρ s.functions rule.head.args = some tuple) :
    c.head.Due s c.body ∅ tuple := by
  have fits' : Literal.AllFit mode (Single rule) s false ρ [] (rule.marked delta) :=
    Literal.allFit_of_forall fun e he _ => (fits e he).lax
  rcases h.path_or_breaks measures fits' with ⟨b, path, hm⟩ | ⟨breaks, _⟩
  · exact .of_path path (by rw [Tuple.evaluate_eq_ok_iff, h.head_values hm, value])
  · exact .inr breaks

/-- **What a clause derives its rule admits.** -/
theorem admits_of_derives (base : rule.Yields mode none c) (hF : F.Measured) (hs : start.Measured)
    (h : c.Derives (.over fns start F) tuple) : rule.Admits fns start F tuple := by
  obtain ⟨next, d, compiled, _⟩ := base.exists_compiled
  obtain ⟨b, path, value⟩ := h
  have hm : d.Matches fns next b (d.env fns b) := fun _ _ _ => rfl
  have fits := compiled.allFit (measures_base hF hs) path hm
  refine ⟨d.env fns b, fun l hl => ?_, ?_⟩
  · obtain ⟨_, hfit⟩ := Literal.exists_fits fits (e := (l, false))
      (by rw [marked_none]; exact List.mem_map_of_mem hl)
    exact hfit.lax
  · rw [← compiled.head_values hm]
    exact Tuple.evaluate_eq_ok_iff.1 value

/-- **What a rule admits is due in its base clause.** -/
theorem Admits.due (h : rule.Admits fns start F tuple) (base : rule.Yields mode none c)
    (hF : F.Measured) (hs : start.Measured) : c.head.Due (.over fns start F) c.body ∅ tuple := by
  obtain ⟨next, d, compiled, _⟩ := base.exists_compiled
  obtain ⟨ρ, fits, value⟩ := h
  refine compiled.due (measures_base hF hs) (fun e he => ?_) value
  rw [marked_none] at he
  obtain ⟨l, hl, rfl⟩ := List.mem_map.1 he
  exact fits l hl

/-- **What new facts add is due in a variant.**  If the rule admits more over facts that others have
been added to, then for some atom that matches one of those it is due in every variant that is run
on those of the atom's relation. -/
theorem Admits.or_due_seeded (hG : G.Measured) (hs : start.Measured) {N : Facts}
    (hG' : ∀ r t, G r t → F r t ∨ N r t) (hN : N.Within G) (h : rule.Admits fns start G tuple) :
    rule.Admits fns start F tuple ∨
      ∃ pre a post, rule.body = pre ++ .atom a :: post ∧ a.negated = false ∧
        (∃ t, N a.relation t) ∧ ∀ mode v, rule.Variant mode pre a post v →
          v.head.Due (.onSeed fns start G (N a.relation)) v.body ∅ tuple := by
  obtain ⟨ρ, fits, value⟩ := h
  by_cases hnew : ∃ a t, .atom a ∈ rule.body ∧ a.negated = false ∧ N a.relation t ∧
      a.Matches (Single rule) fns ρ t
  · obtain ⟨a, t, ha, hn, ht, hmatches⟩ := hnew
    obtain ⟨pre, post, body⟩ := List.append_of_mem ha
    refine .inr ⟨pre, a, post, body, hn, ⟨t, ht⟩, fun mode v variant => ?_⟩
    obtain ⟨turned, delta, turns, yields⟩ := variant.exists_turned body
    obtain ⟨next, d, compiled, _⟩ := yields.exists_compiled
    have measures : (Scene.onSeed fns start G (N a.relation)).MeasuresAll (turned.marked delta) :=
      measures_seeded hG hs (fun t ht => hG _ t (hN _ t ht)) turns.mem_marked
    refine compiled.due measures ?_ (turns.head ▸ value)
    rintro ⟨l, mark⟩ he
    rw [turns.single]
    rcases mem_markedAt.1 ((turns.mem_marked _).1 he) with ⟨rfl, rfl⟩ | ⟨rfl, hl⟩
    · rw [Literal.Fits, Atom.Fits, hn, if_neg Bool.false_ne_true]
      exact ⟨t, ht, hmatches⟩
    · refine fits_over_iff.2 (fits l ?_)
      rw [body]
      exact List.perm_middle.symm.mem_iff.1 (List.mem_cons_of_mem _ hl)
  · refine .inl ⟨ρ, fun l hl => (fits l hl).rescene rfl rfl fun a e hn t hmatches ht => ?_, value⟩
    have ht := Scene.gives_over_iff.1 ht
    refine ⟨t, hmatches, Scene.gives_over_iff.2 ((hG' _ t ht).resolve_right fun new => ?_)⟩
    exact hnew ⟨a, t, e ▸ hl, hn, new, hmatches⟩

/-- **What a new tuple adds is due in a variant** that is run on that tuple. -/
theorem Admits.or_due (hG : G.Measured) (hs : start.Measured) {r : Relation}
    (hG' : ∀ r' t, G r' t → F r' t ∨ r' = r ∧ t = x) (h : rule.Admits fns start G tuple) :
    rule.Admits fns start F tuple ∨
      ∃ pre a post, rule.body = pre ++ .atom a :: post ∧ a.negated = false ∧ a.relation = r ∧
        ∀ mode v, rule.Variant mode pre a post v →
          v.head.Due (.onSeed fns start G (· = x)) v.body ∅ tuple := by
  have split : ∀ r' t, G r' t → F r' t ∨ (r' = r ∧ t = x) ∧ G r' t :=
    fun r' t ht => (hG' r' t ht).imp_right fun new => ⟨new, ht⟩
  refine (h.or_due_seeded hG hs (N := fun r' t => (r' = r ∧ t = x) ∧ G r' t) split
    fun _ _ h => h.2).imp_right ?_
  rintro ⟨pre, a, post, body, hn, ⟨t, ⟨rfl, rfl⟩, ht⟩, due⟩
  refine ⟨pre, a, post, body, hn, rfl, fun mode v variant => ?_⟩
  have seed : (fun t' => (a.relation = a.relation ∧ t' = t) ∧ G a.relation t') = (· = t) := by
    funext t'
    exact propext ⟨fun h => h.1.2, fun h => ⟨⟨rfl, h⟩, h ▸ ht⟩⟩
  exact seed ▸ due mode v variant

end Rule

end Datalog
