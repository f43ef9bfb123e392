import Datalog.Meaning.Closure
import Datalog.Proofs.Compile.Equation
import Datalog.Proofs.Compile.Search

/-!
# Proofs/Compile/Body — what a clause says

A body says what its literals say, one after the other (`Literal.AllFit`).  `Rule.Compiled` collects
what holds of every clause that compilation yields: its steps are in order, every path through them
ends in an environment that fits the body, and every environment that fits has a path, unless the
steps break.
-/

namespace Datalog

/-- **What a literal says** where the variables in `seen` occur before it. -/
def Literal.Fits (mode : Unification) (single : Var → Prop) (s : Scene) (seen : List Var)
    (delta strict : Bool) (ρ : Env) : Literal → Prop
  | .atom a => a.Fits single s delta ρ
  | .unify l r false => l.Fitting mode s.functions seen r strict ρ
  | .unify l r true =>
    ∃ x y, l.value? ρ s.functions = some x ∧ r.value? ρ s.functions = some y ∧ x ≠ y

/-- **What literals say one after the other**; the mark says which atom reads new tuples. -/
def Literal.AllFit (mode : Unification) (single : Var → Prop) (s : Scene) (strict : Bool)
    (ρ : Env) : (seen : List Var) → List (Literal × Bool) → Prop
  | _, [] => True
  | seen, (l, delta) :: ls => l.Fits mode single s seen delta strict ρ ∧
      AllFit mode single s strict ρ (seen ++ l.occurrences) ls

/-- The literals of the body, with a mark at the one that reads new tuples. -/
def Rule.marked (rule : Rule) (delta : Option Nat) : List (Literal × Bool) :=
  rule.body.zipIdx.map fun e => (e.1, decide (delta = some e.2))

/-- The relations of the atoms have tuples of their arity. -/
def Scene.MeasuresAll (s : Scene) (ls : List (Literal × Bool)) : Prop :=
  ∀ a delta, (.atom a, delta) ∈ ls → s.Measures delta a.relation

/-- Nothing to find.  What holds of compilation whatever there is to find is read off here. -/
def Scene.void : Scene := ⟨∅, fun _ _ => False, fun _ _ => False, some fun _ => False⟩

theorem Scene.void_measures {delta : Bool} {r : Relation} : Scene.void.Measures delta r :=
  ⟨fun t ht => by cases delta <;> exact ht.elim, fun t ht => ht.elim⟩

/-- Without a seed every lookup reads the facts. -/
theorem Scene.gives_over_iff {fns : Functions} {start F : Facts} {delta : Bool} {r : Relation}
    {t : Tuple} : (Scene.over fns start F).Gives delta r t ↔ F r t := by
  cases delta <;> rfl

section

variable {mode : Unification} {single : Var → Prop} {s : Scene} {strict : Bool} {ρ : Env}
  {ls : List (Literal × Bool)}

/-- What holds of each literal holds of the body. -/
theorem Literal.allFit_of_forall : ∀ {seen : List Var},
    (∀ e ∈ ls, ∀ seen, e.1.Fits mode single s seen e.2 strict ρ) →
    AllFit mode single s strict ρ seen ls := by
  induction ls with
  | nil => exact fun _ => trivial
  | cons e ls ih =>
    intro seen h
    exact ⟨h e (List.mem_cons_self ..) seen, ih fun o ho => h o (List.mem_cons_of_mem _ ho)⟩

theorem Literal.exists_fits {seen : List Var} (h : AllFit mode single s strict ρ seen ls)
    {e : Literal × Bool} (he : e ∈ ls) : ∃ seen, e.1.Fits mode single s seen e.2 strict ρ := by
  induction ls generalizing seen with
  | nil => cases he
  | cons o ls ih =>
    rcases List.mem_cons.1 he with rfl | he
    · exact ⟨seen, h.1⟩
    · exact ih h.2 he

end

theorem Rule.mem_body_of_marked {rule : Rule} {delta : Option Nat} {e : Literal × Bool}
    (he : e ∈ rule.marked delta) : e.1 ∈ rule.body := by
  obtain ⟨o, ho, rfl⟩ := List.mem_map.1 he
  exact List.fst_mem_of_mem_zipIdx ho

theorem Rule.exists_marked {rule : Rule} (delta : Option Nat) {l : Literal} (hl : l ∈ rule.body) :
    ∃ e ∈ rule.marked delta, e.1 = l := by
  obtain ⟨i, hi⟩ := List.mem_iff_getElem?.1 hl
  exact ⟨_, List.mem_map_of_mem (List.mk_mem_zipIdx_iff_getElem?.2 hi), rfl⟩

namespace Compile

open Draft

variable {old : Nat} {s : Scene} {rule : Rule} {mode : Unification} {seen : List Var}
  {d d' : Draft}

/-- **A disequation says that its sides have different values.** -/
theorem distinguish_learns {single : Var → Prop} {l r : Term}
    (ready : d.Ready single old seen (l.occurrences ++ r.occurrences))
    (ok : distinguish rule l r d = .ok () d') :
    Learns single old s seen (l.occurrences ++ r.occurrences) d d' fun _ _ ρ =>
      ∃ x y, l.value? ρ s.functions = some x ∧ r.value? ρ s.functions = some y ∧ x ≠ y := by
  unfold distinguish at ok
  obtain ⟨_, _, hl, ok⟩ := Outcome.bind_ok_iff.1 ok
  obtain ⟨rfl, rfl⟩ := current_ok_iff.1 hl
  obtain ⟨_, _, hr, ok⟩ := Outcome.bind_ok_iff.1 ok
  obtain ⟨rfl, rfl⟩ := current_ok_iff.1 hr
  obtain ⟨_, _, hbl, ok⟩ := Outcome.bind_ok_iff.1 ok
  obtain ⟨rfl, rfl⟩ := isBound_ok_iff.1 hbl
  obtain ⟨_, _, hbr, ok⟩ := Outcome.bind_ok_iff.1 ok
  obtain ⟨rfl, rfl⟩ := isBound_ok_iff.1 hbr
  rw [ready.left.isBound_iff, ready.skip.isBound_iff] at ok
  split at ok
  · next both =>
    obtain ⟨hl, hr⟩ := Bool.and_eq_true_iff.1 both
    obtain rfl := emit_ok_iff.1 ok
    have known : ∀ v ∈ l.occurrences ++ r.occurrences, d.Knows v := by
      intro v hv
      rcases List.mem_append.1 hv with hv | hv
      · exact ready.left.knows hl v hv
      · exact ready.skip.knows hr v hv
    have sound := ready.sound.check true (ready.left.occurrences_subset hl)
      (ready.skip.occurrences_subset hr) known ready.old
    refine ⟨sound, fun v hv => (Grows.emitted d _).knows (known v hv), _,
      (Adds.check ready.sound sound).imp ready.sound sound ?_ ?_⟩
    · rintro b ρ _ hm (⟨x, y, hx, hy, hxy⟩ | ⟨_, hn⟩)
      · rw [ready.left.value?_eq hl hm] at hx
        rw [ready.skip.value?_eq hr hm] at hy
        exact ⟨x, y, hx, hy, fun e => by simpa using hxy.1 e⟩
      · cases hn
    · rintro strict b ρ _ hm ⟨x, y, hx, hy, hxy⟩
      rw [← ready.left.value?_eq hl hm] at hx
      rw [← ready.skip.value?_eq hr hm] at hy
      exact .inl ⟨x, y, hx, hy, by simp [hxy]⟩
  · exact (Outcome.throw_ok_iff.1 ok).elim

/-- **Each literal says what it says.** -/
theorem literal_reads {l : Literal} {delta : Bool}
    (ready : d.Ready (Single rule) old seen l.occurrences)
    (measures : ∀ a, l = .atom a → s.Measures delta a.relation)
    (ok : literal rule mode delta l d = .ok () d') :
    Reads (Single rule) old s seen l.occurrences d d' fun strict _ ρ =>
      l.Fits mode (Single rule) s seen delta strict ρ := by
  cases l with
  | atom a => exact search_reads ready (measures a rfl) ok
  | unify l r negated =>
    cases negated with
    | false => exact (equate_learns l ready ok).reads
    | true => exact (distinguish_learns ready ok).reads

/-- **The literals of a body**, one after the other. -/
theorem literals_read {ls : List (Literal × Bool)} : ∀ {seen : List Var} {d d' : Draft},
    d.Ready (Single rule) old seen (ls.flatMap fun e => e.1.occurrences) → s.MeasuresAll ls →
    (ls.forM fun e => literal rule mode e.2 e.1) d = .ok () d' →
    Reads (Single rule) old s seen (ls.flatMap fun e => e.1.occurrences) d d' fun strict _ ρ =>
      Literal.AllFit mode (Single rule) s strict ρ seen ls := by
  induction ls with
  | nil =>
    intro seen d d' ready _ ok
    obtain ⟨_, rfl⟩ := Outcome.pure_ok_iff.1 ok
    refine ⟨?_, [], Adds.refl s old d⟩
    rw [List.flatMap_nil, List.append_nil]
    exact ready.sound
  | cons e ls ih =>
    obtain ⟨l, delta⟩ := e
    intro seen d d' ready measures ok
    change (literal rule mode delta l >>= fun _ => ls.forM _) d = _ at ok
    obtain ⟨⟨⟩, d₁, first, ok⟩ := Outcome.bind_ok_iff.1 ok
    rw [List.flatMap_cons] at ready ⊢
    have reads := literal_reads (s := s) ready.left
      (fun a e => measures a delta (e ▸ List.mem_cons_self ..)) first
    have rest := ih (ready.right reads.sound)
      (fun a delta h => measures a delta (List.mem_cons_of_mem _ h)) ok
    obtain ⟨new, adds⟩ := reads.adds
    obtain ⟨new', adds'⟩ := rest.adds
    refine ⟨by rw [← List.append_assoc]; exact rest.sound, new ++ new', ?_⟩
    exact adds.trans adds' reads.sound rest.sound (fun _ _ h h' => ⟨h, h'⟩)
      fun h => ⟨h.1, fun _ _ _ => h.2⟩

/-- **The invariant holds after every literal**, and so after a body. -/
theorem literal_sound {l : Literal} {delta : Bool}
    (ready : d.Ready (Single rule) old seen l.occurrences)
    (ok : literal rule mode delta l d = .ok () d') :
    d'.Sound (Single rule) old (seen ++ l.occurrences) :=
  (literal_reads ready (fun _ _ => Scene.void_measures) ok).sound

theorem literals_sound {ls : List (Literal × Bool)}
    (ready : d.Ready (Single rule) old seen (ls.flatMap fun e => e.1.occurrences))
    (ok : (ls.forM fun e => literal rule mode e.2 e.1) d = .ok () d') :
    d'.Sound (Single rule) old (seen ++ ls.flatMap fun e => e.1.occurrences) :=
  (literals_read ready (fun _ _ _ => Scene.void_measures) ok).sound

/-- An atom of the wrong arity is refused. -/
theorem hasArity_of_literals {ls : List (Literal × Bool)} {d d' : Draft} {a : Atom} {delta : Bool}
    (ok : (ls.forM fun e => literal rule mode e.2 e.1) d = .ok () d')
    (ha : (.atom a, delta) ∈ ls) : a.HasArity := by
  induction ls generalizing d with
  | nil => cases ha
  | cons e ls ih =>
    change (literal rule mode e.2 e.1 >>= fun _ => ls.forM _) d = _ at ok
    obtain ⟨⟨⟩, d₁, first, ok⟩ := Outcome.bind_ok_iff.1 ok
    rcases List.mem_cons.1 ha with rfl | ha
    · exact (search_ok first).1
    · exact ih ok ha

/-- What compiling a rule to a clause has done. -/
theorem clause_ok {delta : Option Nat} {c : Clause} (ok : clause rule mode delta d = .ok c d') :
    rule.head.HasArity ∧
      ((rule.marked delta).forM fun e => literal rule mode e.2 e.1) d = .ok () d' ∧
      c = ⟨⟨rule.head.relation, rule.head.args.map (·.substitute d'.inlined)⟩, d'.steps⟩ ∧
      ∀ t ∈ c.head.args, t.isBoundBy d'.bound = true := by
  unfold clause at ok
  split at ok
  · next arity =>
    refine ⟨arity, ?_⟩
    dsimp only at ok
    split at ok
    · exact (Outcome.throw_bind_ok ok).elim
    · obtain ⟨⟨⟩, d₁, body, ok⟩ := Outcome.bind_ok_iff.1 ok
      obtain ⟨h, d₂, hhead, ok⟩ := Outcome.bind_ok_iff.1 ok
      unfold head at hhead
      obtain ⟨ts, _, hts, hhead⟩ := Outcome.bind_ok_iff.1 hhead
      obtain ⟨rfl, rfl⟩ := mapM_current_ok_iff.1 hts
      obtain ⟨_, _, hget, hhead⟩ := Outcome.bind_ok_iff.1 hhead
      obtain ⟨rfl, rfl⟩ := Outcome.get_ok_iff.1 hget
      dsimp only at hhead
      split at hhead
      · next hempty =>
        obtain ⟨rfl, rfl⟩ := Outcome.pure_ok_iff.1 hhead
        obtain ⟨_, _, hget, ok⟩ := Outcome.bind_ok_iff.1 ok
        obtain ⟨rfl, rfl⟩ := Outcome.get_ok_iff.1 hget
        obtain ⟨rfl, rfl⟩ := Outcome.pure_ok_iff.1 ok
        refine ⟨?_, rfl, ?_⟩
        · rw [Rule.marked, List.forM_eq_forM, List.forM_map]
          exact body
        · intro t ht
          refine List.all_eq_true.2 fun v hv => ?_
          by_contra hn
          have hmem : v ∈ ([] : List Var) := by
            rw [← List.isEmpty_iff.1 hempty, List.mem_eraseDups, List.mem_filter]
            exact ⟨List.mem_flatMap.2 ⟨t, ht, List.mem_eraseDups.2 hv⟩, by simpa using hn⟩
          cases hmem
      · exact (Outcome.throw_bind_ok hhead).elim
  · exact (Outcome.throw_bind_ok ok).elim

end Compile

/-! ## The clause of a rule -/

/-- **What running relies on**: the body reads what it has bound, the head reads what the body
binds, and head and goals have the arity of their relations. -/
structure Clause.Orderly (c : Clause) : Prop where
  inOrder : Step.InOrder [] c.body
  head : Term.occurrencesOf c.head.args ⊆ Step.written c.body
  arity : c.head.args.length = c.head.relation.arity
  goals : ∀ g, .lookup g ∈ c.body → g.args.length = g.relation.arity

/-- **The values of the head** are as many as its relation has arguments. -/
theorem Clause.Orderly.length_eq {c : Clause} (h : c.Orderly) {b : Bindings} {fns : Functions}
    {tuple : Tuple} (value : Tuple.evaluate b fns c.head.args = .ok tuple) :
    tuple.length = c.head.relation.arity :=
  (Tuple.length_of_evaluate value).trans h.arity

open Draft in
/-- **What holds of a clause and the draft it was read off**; `old` is above the numbers of the
rule's variables. -/
structure Rule.Compiled (mode : Unification) (delta : Option Nat) (rule : Rule) (old : Nat)
    (c : Clause) (d : Draft) : Prop where
  body : c.body = d.steps
  head : c.head = ⟨rule.head.relation, rule.head.args.map (·.substitute d.inlined)⟩
  arity : rule.head.HasArity
  arities : ∀ a, .atom a ∈ rule.body → a.HasArity
  sound : d.Sound (Compile.Single rule) old (rule.body.flatMap Literal.occurrences)
  below : ∀ v ∈ rule.occurrences, v.number < old
  head_known : ∀ v ∈ rule.head.occurrences, d.Knows v
  adds : ∀ s : Scene, s.MeasuresAll (rule.marked delta) →
    Adds s old { next := old } d c.body fun strict _ ρ =>
      Literal.AllFit mode (Compile.Single rule) s strict ρ [] (rule.marked delta)

namespace Rule

variable {mode : Unification} {delta : Option Nat} {rule : Rule} {c : Clause} {d : Draft}
  {s : Scene}

theorem flatMap_marked (rule : Rule) (delta : Option Nat) :
    ((rule.marked delta).flatMap fun e => e.1.occurrences) =
      rule.body.flatMap Literal.occurrences := by
  rw [marked, List.flatMap_map]
  conv_rhs => rw [← List.zipIdx_map_fst 0 rule.body, List.flatMap_map]

/-- A variable of the head that occurs in the body is not single. -/
theorem not_single_of_mem {v : Var} (hh : v ∈ rule.head.occurrences)
    (hb : v ∈ rule.body.flatMap Literal.occurrences) : ¬Compile.Single rule v := by
  intro hs
  have hcount : rule.occurrences.count v = 1 := by simpa [Compile.Single, isSingleton] using hs
  have := List.count_pos_iff.2 hh
  have := List.count_pos_iff.2 hb
  rw [occurrences, List.count_append] at hcount
  omega

/-- Compiling a rule starts from a draft that holds nothing, and ends with its counter. -/
theorem compile_ok_iff {next next' : Nat} : rule.compile mode delta next = .ok c next' ↔
    ∃ d, Compile.clause rule mode delta { next } = .ok c d ∧ d.next = next' := by
  rw [compile]
  cases Compile.clause rule mode delta { next } with
  | ok c' d =>
    constructor
    · rintro ⟨⟩
      exact ⟨d, rfl, rfl⟩
    · rintro ⟨_, ⟨⟩, rfl⟩
      rfl
  | error e d => exact ⟨nofun, nofun⟩

theorem clause_of_compile {next next' : Nat} (ok : rule.compile mode delta next = .ok c next') :
    ∃ d, Compile.clause rule mode delta { next } = .ok c d :=
  (compile_ok_iff.1 ok).imp fun _ h => h.1

/-- **The empty draft is ready to read the rule**, the body first and then the head. -/
theorem ready_start {next : Nat} (hold : ∀ v ∈ rule.occurrences, v.number < next) :
    ({ next } : Draft).Ready (Compile.Single rule) next []
      (rule.body.flatMap Literal.occurrences ++ rule.head.occurrences) := by
  have perm : (rule.body.flatMap Literal.occurrences ++ rule.head.occurrences).Perm
      rule.occurrences := List.perm_append_comm
  refine ⟨⟨trivial, List.Subset.refl _, nofun, nofun, nofun, nofun, nofun, nofun, nofun,
    Nat.le_refl _⟩, fun v hs => ?_, fun v hv => hold v (perm.mem_iff.1 hv)⟩
  have hcount : rule.occurrences.count v = 1 := by simpa [Compile.Single, isSingleton] using hs
  rw [List.nil_append, perm.count_eq, hcount]

/-- Its literals are ready to be read with their marks. -/
theorem ready_marked {next : Nat} (hold : ∀ v ∈ rule.occurrences, v.number < next) :
    ({ next } : Draft).Ready (Compile.Single rule) next []
      ((rule.marked delta).flatMap fun e => e.1.occurrences) := by
  rw [flatMap_marked]
  exact (ready_start hold).left

/-- **Compilation yields such a clause.** -/
theorem compiled_of_clause {next : Nat} (hold : ∀ v ∈ rule.occurrences, v.number < next)
    (ok : Compile.clause rule mode delta { next } = .ok c d) :
    rule.Compiled mode delta next c d := by
  obtain ⟨arity, body, rfl, bound⟩ := Compile.clause_ok ok
  have adds (s : Scene) (measures : s.MeasuresAll (rule.marked delta)) :=
    Compile.literals_read (s := s) (ready_marked hold) measures body
  have sound := Compile.literals_sound (ready_marked hold) body
  rw [List.nil_append, flatMap_marked] at sound
  refine ⟨rfl, rfl, arity, fun a ha => ?_, sound, hold, fun v hv => ?_, fun s measures => ?_⟩
  · obtain ⟨i, hi⟩ := List.mem_iff_getElem?.1 ha
    have hmem : (.atom a, i) ∈ rule.body.zipIdx := List.mk_mem_zipIdx_iff_getElem?.2 hi
    exact Compile.hasArity_of_literals body (List.mem_map_of_mem hmem)
  · obtain ⟨t, ht, hv'⟩ := List.mem_flatMap.1 hv
    by_cases hi : ∃ u, d.inlined.get? v = some u
    · exact .inr hi
    · have hmem : v ∈ (t.substitute d.inlined).occurrences := by
        refine Term.mem_occurrences_substitute.2 ⟨v, hv', ?_⟩
        rw [Option.eq_none_iff_forall_ne_some.2 fun u hu => hi ⟨u, hu⟩]
        exact List.mem_singleton.2 rfl
      have hb := Draft.mem_of_isBoundBy (bound _ (List.mem_map_of_mem ht)) hmem
      refine .inl ((sound.bound_cases v hb).resolve_right fun hs => ?_)
      exact not_single_of_mem hv hs.1 hs.2
  · obtain ⟨new, adds⟩ := (adds s measures).adds
    have hnew : new = d.steps := adds.steps.symm
    exact hnew ▸ adds

namespace Compiled

variable {old : Nat} (h : rule.Compiled mode delta old c d)
include h

theorem inOrder : Step.InOrder [] c.body := h.body ▸ h.sound.inOrder

theorem suited (measures : s.MeasuresAll (rule.marked delta)) : Step.Suited s c.body :=
  (h.adds s measures).suited

/-- **The head reads what the body binds.** -/
theorem head_reads : Term.occurrencesOf c.head.args ⊆ Step.written c.body := by
  intro v hv
  obtain ⟨u, hu, hv⟩ := Term.mem_occurrencesOf.1 hv
  rw [h.head] at hu
  obtain ⟨t, ht, rfl⟩ := List.mem_map.1 hu
  rw [h.body]
  refine h.sound.occurrences_substitute (fun w hw => h.head_known w ?_) hv
  exact List.mem_flatMap.2 ⟨t, ht, hw⟩

/-- The head has the values that it has in the rule. -/
theorem head_values {fns : Functions} {b : Bindings} {ρ : Env} (hm : d.Matches fns old b ρ) :
    Term.values? b.get? fns c.head.args = Term.values? ρ fns rule.head.args := by
  rw [h.head, Term.values?, List.mapM_map]
  refine Outcome.mapM_congr fun t ht => ?_
  have hocc {v : Var} (hv : v ∈ t.occurrences) : v ∈ rule.head.occurrences :=
    List.mem_flatMap.2 ⟨t, ht, hv⟩
  exact hm.value?_eq (fun v hv => h.below v (List.mem_append_left _ (hocc hv)))
    fun v hv => h.head_known v (hocc hv)

/-- **Every path through the body is an environment that fits.** -/
theorem allFit (measures : s.MeasuresAll (rule.marked delta)) {b : Bindings} {ρ : Env}
    (path : Step.Path s c.body ∅ b) (hm : d.Matches s.functions old b ρ) :
    Literal.AllFit mode (Compile.Single rule) s true ρ [] (rule.marked delta) :=
  (h.adds s measures).sound nofun path hm

/-- **Every environment that fits has a path**, unless the steps break. -/
theorem path_or_breaks (measures : s.MeasuresAll (rule.marked delta)) {strict : Bool} {ρ : Env}
    (fits : Literal.AllFit mode (Compile.Single rule) s strict ρ [] (rule.marked delta)) :
    (∃ b, Step.Path s c.body ∅ b ∧ d.Matches s.functions old b ρ) ∨
      Step.Breaks s c.body ∅ ∧ strict = false := by
  refine (h.adds s measures).complete nofun (fun v _ hk => ?_) fits
  rcases hk with hk | ⟨t, ht⟩
  · cases hk
  · cases ht

/-- **The clause is fit to run.** -/
theorem orderly : c.Orderly := by
  refine ⟨h.inOrder, h.head_reads, ?_, fun g hg => ?_⟩
  · rw [h.head, List.length_map]
    exact h.arity
  · -- the length of a goal shows over a scene that has every tuple of the right arity
    let scene : Scene := ⟨∅, fun r t => t.length = r.arity, fun r t => t.length = r.arity, none⟩
    have suited : Step.Suited scene c.body := h.suited fun a delta _ =>
      ⟨fun t ht => by cases delta <;> exact ht, fun t ht => ht⟩
    have offered : scene.Offers g (List.replicate g.relation.arity default) := by
      rw [Scene.offers_iff]
      have long : (List.replicate g.relation.arity (default : Term)).length = g.relation.arity :=
        List.length_replicate ..
      cases g.delta <;> exact long
    exact ((suited g hg).offered _ offered).symm.trans (List.length_replicate ..)

end Compiled

theorem orderly_of_compile {next next' : Nat} (below : ∀ v ∈ rule.occurrences, v.number < next)
    (ok : rule.compile mode delta next = .ok c next') : c.Orderly := by
  obtain ⟨d, ok⟩ := clause_of_compile ok
  exact (compiled_of_clause below ok).orderly

end Rule

end Datalog
