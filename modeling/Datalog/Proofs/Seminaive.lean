import Datalog.Proofs.Compile.Canonical
import Datalog.Proofs.Fitted
import Datalog.Proofs.Planning

/-!
# Proofs/Seminaive — a rule taken apart by what is new

Of what a rule derives from a store, some it derives from an earlier store already, and the rest
rests on a tuple that is new.  A planned stratum has a clause for each atom that such a tuple may
match, run on the new tuples of the atom's relation, and these clauses derive the rest and nothing
that the rule does not derive (`Stratum.splits_of_plan`).  Moving the atom to the front changes what
the other goals bind and what they check.  That makes no difference to what comes out as long as
nothing faults, and over tuples that are long enough only a call can fault.
-/

namespace Datalog

/-! ## One goal for new tuples -/

/-- The goals of a clause that read new tuples. -/
def Clause.deltas (c : Clause) : List Goal := (c.body.filterMap Step.goal?).filter (·.delta)

/-- The terms that a clause evaluates: those of its steps, and those of its head. -/
def Clause.terms (c : Clause) : List Term := c.body.flatMap Step.terms ++ c.head.args

namespace Rule

variable {mode : Unification} {rule : Rule} {pre post : List Literal} {a : Atom} {c v : Clause}

/-- **The marked atom is the one** that is looked up among new tuples. -/
theorem deltas_of_compile {next next' : Nat} (below : ∀ v ∈ rule.occurrences, v.number < next)
    (body : rule.body = pre ++ .atom a :: post)
    (ok : rule.compile mode (some pre.length) next = .ok c next') :
    ∃ g, c.deltas = [g] ∧ g.Asks true a := by
  have marks {es : List (Atom × Bool)} {gs : List Goal}
      (serves : List.Forall₂ (Goal.Serves rule) es gs) :
      List.Forall₂ (Goal.Serves rule) (es.filter Prod.snd) (gs.filter (·.delta)) := by
    induction serves with
    | nil => exact .nil
    | @cons e g es gs h _ ih =>
      rw [List.filter_cons, List.filter_cons, h.delta]
      split
      · exact .cons h ih
      · exact ih
  have unmarked (ls : List Literal) :
      ((ls.map fun l => (l, false)).filterMap Literal.asked).filter Prod.snd = [] := by
    induction ls with
    | nil => rfl
    | cons l ls ih => cases l <;> simpa [Literal.asked] using ih
  have only : ((rule.marked (some pre.length)).filterMap Literal.asked).filter Prod.snd =
      [(a, true)] := by
    rw [marked_some body, List.filterMap_append, List.filter_append, List.filterMap_cons, unmarked]
    simp only [Literal.asked, List.filter_cons_of_pos, List.nil_append, unmarked]
  have serves := marks (goals_of_compile below ok)
  rw [only] at serves
  obtain ⟨g, _, h, none, single⟩ := List.forall₂_cons_left_iff.1 serves
  rw [List.forall₂_nil_left_iff.1 none] at single
  exact ⟨g, single, h.toAsks⟩

/-- **A variant has one goal for new tuples**, which asks for its atom, in front or in its place. -/
theorem Variant.deltas (h : rule.Variant mode pre a post v)
    (body : rule.body = pre ++ .atom a :: post) : ∃ g, v.deltas = [g] ∧ g.Asks true a := by
  cases h with
  | inPlace h =>
    obtain ⟨_, _, below, ok⟩ := h
    exact deltas_of_compile below body ok
  | front h =>
    obtain ⟨_, _, below, ok⟩ := h
    have body' : (rule.fronted pre a post).body = [] ++ .atom a :: (pre ++ post) := rfl
    exact deltas_of_compile below body' ok

/-! ## Facts, and those that are new -/

section

variable {fns : Functions} {D D' N : Facts} {tuple : Tuple}

/-- **What a variant derives** from facts and new ones among them, the rule derives. -/
theorem derives_of_added (body : rule.body = pre ++ .atom a :: post)
    (base : rule.Yields mode none c) (variant : rule.Variant mode pre a post v)
    (new : N.Within D') (calm : ¬c.Faults (.over fns D' D'))
    (calm' : ¬v.Faults (.onSeed fns D' D' (N a.relation)))
    (h : v.Derives (.onSeed fns D' D' (N a.relation)) tuple) :
    c.Derives (.over fns D' D') tuple := by
  have own : ∀ g, .lookup g ∈ v.body → g.delta = true → g.relation = a.relation :=
    fun _ => variant.relation_of_delta body
  have orderly := variant.orderly body
  rw [Clause.derives_iff_fitted base.orderly base.orderly.fits_over calm]
  rw [Clause.derives_iff_fitted orderly (orderly.fits_onSeed own) calm'] at h
  exact derives_of_variant body base variant (Facts.measured_fitted D') (Facts.measured_fitted D')
    (new.fitted a.relation) h

/-- **What a rule derives** it derives from the old facts, or a variant of it derives it from facts
of which some new one matches the variant's atom. -/
theorem derives_or_added (base : rule.Yields mode none c) (within : D.Within D')
    (new : N.Within D') (split : ∀ r t, D' r t → D r t ∨ N r t)
    (calm : ¬c.Faults (.over fns D' D')) (calm' : ¬c.Faults (.over fns D D))
    (h : c.Derives (.over fns D' D') tuple) :
    c.Derives (.over fns D D) tuple ∨ ∃ pre a post, rule.body = pre ++ .atom a :: post ∧
      a.negated = false ∧ (∃ t, N a.relation t) ∧ ∀ v, rule.Variant mode pre a post v →
        ¬v.Faults (.onSeed fns D' D' (N a.relation)) →
          v.Derives (.onSeed fns D' D' (N a.relation)) tuple := by
  rw [Clause.derives_iff_fitted base.orderly base.orderly.fits_over calm] at h
  have admits := admits_of_derives base (Facts.measured_fitted D') (Facts.measured_fitted D') h
  have split' : ∀ r t, D'.fitted r t → D.fitted r t ∨ N.fitted r t := by
    rintro r t ⟨u, hu, fits⟩
    exact (split r u hu).imp (fun hu => ⟨u, hu, fits⟩) fun hu => ⟨u, hu, fits⟩
  rcases admits.or_due_seeded (Facts.measured_fitted D') (Facts.measured_fitted D') split'
    new.fitted with admits | ⟨pre, a, post, body, hn, ⟨t, u, hu, _⟩, due⟩
  · -- what was absent later was absent before
    have serves : (Scene.over fns D' D).Serves (.over fns D D) c.body :=
      Scene.over_serves (.refl fns) (.refl D) fun _ _ _ t ht => within _ t ht
    have unbroken : ¬c.Faults (.over fns D' D) := fun faults => calm' (faults.imp rfl serves)
    have due := admits.due base (Facts.measured_fitted D) (Facts.measured_fitted D')
    exact .inl ((Clause.derives_of_due_fitted base.orderly base.orderly.fits_over unbroken
      due).imp serves)
  · refine .inr ⟨pre, a, post, body, hn, ⟨u, hu⟩, fun v variant calm => ?_⟩
    have own : ∀ g, .lookup g ∈ v.body → g.delta = true → g.relation = a.relation :=
      fun _ => variant.relation_of_delta body
    have orderly := variant.orderly body
    exact Clause.derives_of_due_fitted orderly (orderly.fits_onSeed own) calm (due mode v variant)

end

/-! ## Calls -/

/-- **A clause makes the calls of its rule.** -/
theorem Yields.calls {delta : Option Nat} (h : rule.Yields mode delta c) :
    ∀ t ∈ c.terms, t.calls ⊆ rule.calls := by
  obtain ⟨_, _, below, ok⟩ := h
  obtain ⟨d, ok⟩ := clause_of_compile ok
  obtain ⟨drafted, head⟩ := from_of_clause ok
  intro t ht
  rcases List.mem_append.1 ht with ht | ht
  · obtain ⟨step, hs, ht⟩ := List.mem_flatMap.1 ht
    exact drafted.steps step ((compiled_of_clause below ok).body ▸ hs) t ht
  · exact head t ht

/-- **A variant makes the calls of its rule.** -/
theorem Variant.calls (h : rule.Variant mode pre a post v)
    (body : rule.body = pre ++ .atom a :: post) : ∀ t ∈ v.terms, t.calls ⊆ rule.calls := by
  cases h with
  | inPlace h => exact h.calls
  | front h =>
    have same : (rule.fronted pre a post).calls ⊆ rule.calls := by
      rw [Rule.calls, Rule.calls, body]
      exact (List.Perm.append_left _ (List.perm_middle.symm.flatMap_right _)).subset
    exact fun t ht => List.Subset.trans (h.calls t ht) same

end Rule

/-- **Over tuples that are long enough only a call fails**: if the loops of a clause end in an error,
a call that the clause makes raises it. -/
theorem Loops.call_of_derived_error {loops : Loops} {c : Clause} {e : Abort} (orderly : c.Orderly)
    (long : Step.Long loops.scene c.body) (error : loops.derived c = .error e) :
    ∃ f xs, (∃ t ∈ c.terms, (f, xs.length) ∈ t.calls) ∧ loops.functions.call f xs = .error e := by
  -- a variable that is read has been bound
  have call {b : Bindings} {vs : List Var} {t : Term} (defined : b.Defined vs)
      (ht : t.occurrences ⊆ vs) (hc : t ∈ c.terms)
      (error : t.evaluate b loops.functions = .error e) :
      ∃ f xs, (∃ t ∈ c.terms, (f, xs.length) ∈ t.calls) ∧ loops.functions.call f xs = .error e := by
    rw [Term.evaluate_eq_valueIn] at error
    rcases Term.valueIn_error error with ⟨v, hv, unbound, _⟩ | ⟨f, xs, hcall, error⟩
    · obtain ⟨x, hx⟩ := defined v (ht hv)
      cases unbound.symm.trans hx
    · exact ⟨f, xs, ⟨t, hc, hcall⟩, error⟩
  rcases Outcome.except_bind_error_iff.1 error with error | ⟨bs, hbs, error⟩
  · obtain ⟨pre, step, post, b, body, path, error⟩ := exists_of_ways_error error
    obtain ⟨t, ht, error⟩ := exists_of_next_error error
    have order := Step.inOrder_append.1 (body ▸ orderly.inOrder)
    have defined := path.defined order.1
      (fun g hg => long g (body ▸ List.mem_append_left _ hg)) (nofun : ∀ v ∈ [], _)
    have hstep : step ∈ c.body := body ▸ List.mem_append_right _ (List.mem_cons_self ..)
    exact call defined (List.Subset.trans (Step.occurrences_subset_reads ht) order.2.1)
      (List.mem_append_left _ (List.mem_flatMap.2 ⟨step, hstep, ht⟩)) error
  · obtain ⟨b, hb, error⟩ := Outcome.exists_of_mapM_error error
    obtain ⟨t, ht, error⟩ := Outcome.exists_of_mapM_error error
    have defined := ((mem_ways_iff hbs).1 hb).defined orderly.inOrder long (nofun : ∀ v ∈ [], _)
    exact call defined (fun v hv => orderly.head (Term.mem_occurrencesOf.2 ⟨t, ht, hv⟩))
      (List.mem_append_right _ ht) error

/-! ## Stores -/

/-- The tuples that the first store has and the second has not. -/
def Store.beyond (s s' : Store) (r : Relation) : List Tuple :=
  (s.extent r).tuples.filter fun t => !s'.contains r t

theorem Store.mem_beyond_iff {s s' : Store} {r : Relation} {t : Tuple} :
    t ∈ s.beyond s' r ↔ s.Holds r t ∧ ¬s'.Holds r t := by
  rw [beyond, List.mem_filter, Bool.not_eq_true', ← Bool.not_eq_true, contains_iff]
  rfl

/-- **The second store has more facts** than the first, all of derived relations that the rule does
not negate. -/
structure Rule.Grows (heads : List Relation) (rule : Rule) (D D' : Store) : Prop where
  within : D.Holds.Within D'.Holds
  heads : ∀ r t, D'.Holds r t → ¬D.Holds r t → r ∈ heads
  positive : ∀ a t, .atom a ∈ rule.body → a.negated = true → D'.Holds a.relation t →
    D.Holds a.relation t

/-- No tuple is too short for an atom of the rule that is looked up. -/
def Rule.Filled (rule : Rule) (D : Store) : Prop :=
  ∀ a, .atom a ∈ rule.body → a.negated = false →
    ∀ t, D.Holds a.relation t → a.relation.arity ≤ t.length

/-- The loops of the clause end without a fault, and the tuple is one that they find. -/
def Loops.Gives (loops : Loops) (c : Clause) (t : Tuple) : Prop :=
  ∃ tuples, loops.derived c = .ok tuples ∧ t ∈ tuples

/-- **What the loops give** is what the clause derives, if it does not fault. -/
theorem Loops.gives_iff {loops : Loops} {c : Clause} {t : Tuple}
    (ok : ∃ tuples, loops.derived c = .ok tuples) : loops.Gives c t ↔ c.Derives loops.scene t := by
  obtain ⟨tuples, ok⟩ := ok
  rw [← mem_derived_iff ok]
  refine ⟨?_, fun ht => ⟨tuples, ok, ht⟩⟩
  rintro ⟨tuples', ok', ht⟩
  exact Except.ok.inj (ok'.symm.trans ok) ▸ ht

namespace Stratum

/-- **The runs of a rule's clauses**: of its base clause over a store, before and after the store
has grown, and of its variants over the store as it is then, each on what has been added to its
relation. -/
inductive Runs (s : Stratum) (mode : Unification) (rule : Rule) (base : Clause) (fns : Functions)
    (D D' : Store) : Loops → Clause → Prop
  | before : Runs s mode rule base fns D D' ⟨fns, D, none⟩ base
  | after : Runs s mode rule base fns D D' ⟨fns, D', none⟩ base
  | added {r : Relation} {v : PlannedClause} (fired : v ∈ s.firedBy r)
      (variant : rule.IsVariant mode r v.clause) :
      Runs s mode rule base fns D D' ⟨fns, D', some (D'.beyond D r)⟩ v.clause

/-- None of these runs ends in a fault. -/
def Calm (s : Stratum) (mode : Unification) (rule : Rule) (base : Clause) (fns : Functions)
    (D D' : Store) : Prop :=
  ∀ loops k, s.Runs mode rule base fns D D' loops k → ∃ tuples, loops.derived k = .ok tuples

variable {mode : Unification} {fns : Functions} {heads : List Relation} {rules : List Rule}
  {s : Stratum} {rule : Rule} {c : Clause} {D D' : Store}

/-- **Only calls fail** where no tuple is shorter than an atom that asks for it. -/
theorem Runs.call_of_error (base : rule.Yields mode none c) (grows : rule.Grows heads D D')
    (filled : rule.Filled D') {loops : Loops} {k : Clause} {e : Abort}
    (run : s.Runs mode rule c fns D D' loops k) (error : loops.derived k = .error e) :
    ∃ f xs, (f, xs.length) ∈ rule.calls ∧ fns.call f xs = .error e := by
  have raised (orderly : k.Orderly) (calls : ∀ t ∈ k.terms, t.calls ⊆ rule.calls)
      (functions : loops.functions = fns)
      (asks : ∀ g, .lookup g ∈ k.body → ∃ b, .atom b ∈ rule.body ∧ g.relation = b.relation ∧
        g.negated = b.negated ∧ ∀ t, loops.scene.Offers g t → D'.Holds b.relation t) :
      ∃ f xs, (f, xs.length) ∈ rule.calls ∧ fns.call f xs = .error e := by
    have long : Step.Long loops.scene k.body := by
      intro g hg hn t ht
      obtain ⟨b, hb, relation, negated, held⟩ := asks g hg
      rw [orderly.goals g hg, relation]
      exact filled b hb (negated ▸ hn) t (held t ht)
    obtain ⟨f, xs, ⟨t, ht, hcall⟩, raised⟩ := Loops.call_of_derived_error orderly long error
    exact ⟨f, xs, calls t ht hcall, functions ▸ raised⟩
  cases run with
  | before =>
    refine raised base.orderly base.calls rfl fun g hg => ?_
    obtain ⟨b, hb, asks⟩ := base.asks hg
    refine ⟨b, hb, asks.relation, asks.negated, fun t ht => grows.within _ t ?_⟩
    exact asks.relation ▸ Scene.offers_over.1 ht
  | after =>
    refine raised base.orderly base.calls rfl fun g hg => ?_
    obtain ⟨b, hb, asks⟩ := base.asks hg
    exact ⟨b, hb, asks.relation, asks.negated, fun t ht => asks.relation ▸ Scene.offers_over.1 ht⟩
  | added fired variant =>
    obtain ⟨pre, a, post, body, hn, rfl, variant⟩ := variant
    refine raised (variant.orderly body) (variant.calls body) rfl fun g hg => ?_
    obtain ⟨b, mark, hb, asks, own⟩ := variant.asks body hg
    refine ⟨b, hb, asks.relation, asks.negated, fun t ht => ?_⟩
    cases hd : g.delta with
    | true =>
      have hb : b = a := own (asks.delta ▸ hd)
      simp only [Scene.Offers, hd] at ht
      exact hb ▸ (Store.mem_beyond_iff.1 ht).1
    | false =>
      simp only [Scene.Offers, hd] at ht
      exact asks.relation ▸ ht

/-- **What the base clause gives over the larger store** it gives over the smaller one, or a variant
of it gives on what has been added. -/
theorem Linked.gives_iff (h : s.Linked mode heads rules) (hrule : rule ∈ rules)
    (base : rule.Yields mode none c) (grows : rule.Grows heads D D')
    (calm : s.Calm mode rule c fns D D') {t : Tuple} :
    Loops.Gives ⟨fns, D', none⟩ c t ↔ Loops.Gives ⟨fns, D, none⟩ c t ∨
      ∃ r, ∃ v ∈ s.firedBy r, rule.IsVariant mode r v.clause ∧
        Loops.Gives ⟨fns, D', some (D'.beyond D r)⟩ v.clause t := by
  have before := calm _ _ .before
  have after := calm _ _ .after
  have new : Facts.Within (fun r t => t ∈ D'.beyond D r) D'.Holds :=
    fun r t ht => (Store.mem_beyond_iff.1 ht).1
  rw [Loops.gives_iff before, Loops.gives_iff after]
  rw [Loops.exists_derived_iff] at before after
  constructor
  · intro hd
    have split : ∀ r t, D'.Holds r t → D.Holds r t ∨ t ∈ D'.beyond D r := fun r t ht =>
      or_iff_not_imp_left.2 fun hn => Store.mem_beyond_iff.2 ⟨ht, hn⟩
    refine (Rule.derives_or_added base grows.within new split after before hd).imp_right ?_
    rintro ⟨pre, a, post, body, hn, ⟨u, hu⟩, derives⟩
    have hu := Store.mem_beyond_iff.1 hu
    obtain ⟨_, _, _, all⟩ := h.rules rule hrule
    obtain ⟨v, fired, variant⟩ := all pre a post body hn (grows.heads _ u hu.1 hu.2)
    have isVariant : rule.IsVariant mode a.relation v.clause :=
      ⟨pre, a, post, body, hn, rfl, variant⟩
    have ends := calm _ _ (.added fired isVariant)
    exact ⟨a.relation, v, fired, isVariant, (Loops.gives_iff ends).2
      (derives v.clause variant (Loops.exists_derived_iff.1 ends))⟩
  · rintro (hd | ⟨r, v, fired, isVariant, gives⟩)
    · refine hd.imp (Scene.over_serves (.refl fns) grows.within fun g hg hn t ht => ?_)
      obtain ⟨b, hb, asks⟩ := base.asks hg
      rw [asks.relation] at ht ⊢
      exact grows.positive b t hb (asks.negated ▸ hn) ht
    · have ends := calm _ _ (.added fired isVariant)
      obtain ⟨pre, a, post, body, hn, rfl, variant⟩ := isVariant
      exact Rule.derives_of_added body base variant new after (Loops.exists_derived_iff.1 ends)
        ((Loops.gives_iff ends).1 gives)

/-- **A planned rule splits by what is new.**  Every clause that new tuples of a relation set off is
a variant for an atom over that relation, and has one goal for new tuples, a positive one over the
relation.  A rule has its base clause and a variant for each positive atom over a derived relation.
Over stores of which one has more facts than the other, of derived relations that the rule does not
negate: a run of these clauses fails only with what a call of the rule raises, if no tuple is too
short for an atom that asks for it.  And if no run fails, the base clause gives over the larger
store what it gives over the smaller one, and what the variants give on the new tuples of their
relations. -/
theorem splits_of_plan {st st' : PlanState}
    (below : ∀ rule ∈ rules, ∀ v ∈ rule.occurrences, v.number < st.next)
    (planned : plan mode fns rules st = .ok s st') :
    (∀ r, ∀ v ∈ s.firedBy r, (∃ rule ∈ rules, rule.IsVariant mode r v.clause) ∧
      ∃ g, v.clause.deltas = [g] ∧ g.relation = r ∧ g.negated = false) ∧
    ∀ rule ∈ rules,
      (∃ c ∈ s.base, rule.Yields mode none c.clause) ∧
      (∀ pre a post, rule.body = pre ++ .atom a :: post → a.negated = false →
        a.relation ∈ rules.map (·.head.relation) →
          ∃ v ∈ s.firedBy a.relation, rule.Variant mode pre a post v.clause) ∧
      ∀ c ∈ s.base, rule.Yields mode none c.clause → ∀ D D' : Store,
        rule.Grows (rules.map (·.head.relation)) D D' →
          (rule.Filled D' → ∀ loops k e, s.Runs mode rule c.clause fns D D' loops k →
            loops.derived k = .error e →
              ∃ f xs, (f, xs.length) ∈ rule.calls ∧ fns.call f xs = .error e) ∧
          (s.Calm mode rule c.clause fns D D' →
            ∀ t, Loops.Gives ⟨fns, D', none⟩ c.clause t ↔
              Loops.Gives ⟨fns, D, none⟩ c.clause t ∨
                ∃ r, ∃ v ∈ s.firedBy r, rule.IsVariant mode r v.clause ∧
                  Loops.Gives ⟨fns, D', some (D'.beyond D r)⟩ v.clause t) := by
  obtain ⟨linked, _⟩ := linked_of_plan below planned
  refine ⟨fun r v fired => ?_, fun rule hrule => ?_⟩
  · obtain ⟨_, _, rule, hrule, _, variant⟩ := linked.recursive r v fired
    refine ⟨⟨rule, hrule, variant⟩, ?_⟩
    obtain ⟨pre, a, post, body, hn, rfl, variant⟩ := variant
    obtain ⟨g, single, asks⟩ := variant.deltas body
    exact ⟨g, single, asks.relation, asks.negated.trans hn⟩
  · obtain ⟨c, hc, yields, all⟩ := linked.rules rule hrule
    refine ⟨⟨c, hc, yields⟩, all, fun c _ base D D' grows => ⟨?_, ?_⟩⟩
    · intro filled loops k e run error
      exact run.call_of_error base grows filled error
    · exact fun calm t => linked.gives_iff hrule base grows calm

end Stratum

namespace Trek

/-- Pairs of connected nodes. -/
def path : Relation := ⟨"path", 2, .bottomUp⟩

/-- The variable `x`. -/
def x : Term := .var ⟨"x", 0⟩

/-- The variable `y`. -/
def y : Term := .var ⟨"y", 0⟩

/-- The variable `z`. -/
def z : Term := .var ⟨"z", 0⟩

/-- `path(x, z) :- path(x, y), path(y, z).`, which may match a new tuple in two places. -/
def join : Rule where
  head := { relation := path, args := [x, z] }
  body := [
    .atom { relation := path, args := [x, y] },
    .atom { relation := path, args := [y, z] }]

/-- One path. -/
def before : Store := (Store.add ∅ path [.lit (.int 1), .lit (.int 2)]).1

/-- The path, and one that goes on from it. -/
def after : Store := (before.add path [.lit (.int 2), .lit (.int 3)]).1

theorem grows : join.Grows [path] before after where
  within _ _ ht := Store.holds_add_iff.2 (.inl ht)
  heads r t ht new := by
    obtain ⟨rfl, _⟩ := (Store.holds_add_iff.1 ht).resolve_left new
    exact List.mem_singleton.2 rfl
  positive a t ha negated := by
    rcases ha with _ | ⟨_, _ | ⟨_, ⟨⟩⟩⟩ <;> cases negated

theorem filled : join.Filled after :=
  fun a _ _ t ht => ((Store.fit_empty.add rfl).add rfl).measured a.relation t ht |>.ge

/-- The path from 1 to 3 is new, and a variant finds it where it looks for the second leg. -/
theorem exists_variant_gives : ∃ s st', Stratum.plan .assign ∅ [join] ⟨∅, 1⟩ = .ok s st' ∧
    ∃ r, ∃ v ∈ s.firedBy r, (∃ g, v.clause.deltas = [g] ∧ g.relation = r) ∧
      Loops.Gives ⟨∅, after, some (after.beyond before r)⟩ v.clause
        [.lit (.int 1), .lit (.int 3)] := by
  have ok : Plan.passes (Stratum.plan .assign ∅ [join]) ⟨∅, 1⟩ (fun s _ =>
      s.base.all fun c => Loops.derived ⟨∅, before, none⟩ c.clause = .ok [] ∧
        Loops.derived ⟨∅, after, none⟩ c.clause = .ok [[.lit (.int 1), .lit (.int 3)]]) = true := by
    decide +kernel
  obtain ⟨s, st', planned, ok⟩ := Plan.exists_of_passes ok
  obtain ⟨single, all⟩ := Stratum.splits_of_plan (by decide) planned
  obtain ⟨⟨c, hc, base⟩, _, splits⟩ := all join (List.mem_singleton.2 rfl)
  obtain ⟨raised, gives⟩ := splits c hc base before after grows
  -- the rule makes no calls
  have calm : s.Calm .assign join c.clause ∅ before after := by
    intro loops k run
    cases h : loops.derived k with
    | ok tuples => exact ⟨tuples, rfl⟩
    | error e =>
      obtain ⟨f, xs, hcall, _⟩ := raised filled loops k e run h
      cases hcall
  obtain ⟨old, new⟩ := of_decide_eq_true (List.all_eq_true.1 ok c hc)
  obtain ⟨tuples, h, ht⟩ | ⟨r, v, fired, _, found⟩ :=
    (gives calm [.lit (.int 1), .lit (.int 3)]).1 ⟨_, new, List.mem_singleton.2 rfl⟩
  · cases old.symm.trans h
    cases ht
  · obtain ⟨_, g, marked, relation, _⟩ := single r v fired
    exact ⟨s, st', planned, r, v, fired, ⟨g, marked, relation⟩, found⟩

end Trek

namespace Lopsided

/-- What is in stock, with its place. -/
def stock : Relation := ⟨"stock", 2, .extensional⟩

/-- The places that are looked at. -/
def shelf : Relation := ⟨"shelf", 1, .extensional⟩

/-- What is in stock, once it is derived. -/
def item : Relation := ⟨"item", 2, .bottomUp⟩

/-- What is found at the places. -/
def found : Relation := ⟨"found", 1, .bottomUp⟩

/-- The variable `x`. -/
def x : Term := .var ⟨"x", 0⟩

/-- The variable `y`. -/
def y : Term := .var ⟨"y", 0⟩

/-- `found(x) :- shelf(y), item(x, y).`, whose variant starts with the item. -/
def look : Rule where
  head := { relation := found, args := [x] }
  body := [.atom { relation := shelf, args := [y] }, .atom { relation := item, args := [x, y] }]

/-- The rule, behind `item(x, y) :- stock(x, y).`, which makes items new. -/
def rules : List Rule := [
  { head := { relation := item, args := [x, y] }
    body := [.atom { relation := stock, args := [x, y] }] },
  look]

/-- One place, and no items yet. -/
def before : Store := (Store.add ∅ shelf [.lit (.int 5)]).1

/-- An item without its second value. -/
def after : Store := (before.add item [.lit (.int 1)]).1

theorem grows : look.Grows (rules.map (·.head.relation)) before after where
  within _ _ ht := Store.holds_add_iff.2 (.inl ht)
  heads r t ht new := by
    obtain ⟨rfl, _⟩ := (Store.holds_add_iff.1 ht).resolve_left new
    exact List.mem_cons_self ..
  positive a t ha negated := by
    rcases ha with _ | ⟨_, _ | ⟨_, ⟨⟩⟩⟩ <;> cases negated

/-- **A tuple that is too short** matches where its missing value is asked for, and leaves it
unbound where it should be found.  No call is made, yet the variant fails on the new item and does
not find what the base clause finds now and has not found before. -/
theorem not_splits : look.calls = [] ∧ look.Grows (rules.map (·.head.relation)) before after ∧
    ∃ s st', Stratum.plan .assign ∅ rules ⟨∅, 1⟩ = .ok s st' ∧
      ∃ c ∈ s.base, look.Yields .assign none c.clause ∧
        Loops.Gives ⟨∅, after, none⟩ c.clause [.lit (.int 1)] ∧
        ¬Loops.Gives ⟨∅, before, none⟩ c.clause [.lit (.int 1)] ∧
        ∀ r, ∀ v ∈ s.firedBy r,
          ¬Loops.Gives ⟨∅, after, some (after.beyond before r)⟩ v.clause [.lit (.int 1)] := by
  have ok : Plan.passes (Stratum.plan .assign ∅ rules) ⟨∅, 1⟩ (fun s _ =>
      (s.base.all fun c => c.head.relation = found →
        Loops.derived ⟨∅, before, none⟩ c.clause = .ok [] ∧
          Loops.derived ⟨∅, after, none⟩ c.clause = .ok [[.lit (.int 1)]]) &&
      s.recursive.entries.all fun e => e.2.all fun v =>
        !(Loops.derived ⟨∅, after, some (after.beyond before e.1)⟩ v.clause).toBool) = true := by
    decide +kernel
  obtain ⟨s, st', planned, ok⟩ := Plan.exists_of_passes ok
  obtain ⟨bases, variants⟩ := Bool.and_eq_true_iff.1 ok
  have linked := (Stratum.linked_of_plan (by decide) planned).1
  obtain ⟨c, hc, base, _⟩ := linked.rules look (by simp [rules])
  obtain ⟨old, new⟩ := of_decide_eq_true (List.all_eq_true.1 bases c hc)
    (Stratum.relation_of_yields base)
  refine ⟨rfl, grows, s, st', planned, c, hc, base, ⟨_, new, List.mem_singleton.2 rfl⟩, ?_, ?_⟩
  · rintro ⟨tuples, h, ht⟩
    cases old.symm.trans h
    cases ht
  · rintro r v fired ⟨tuples, h, _⟩
    obtain ⟨vs, entry, hv⟩ := Stratum.exists_of_mem_firedBy fired
    have fails := List.all_eq_true.1 (List.all_eq_true.1 variants _ entry) v hv
    rw [h] at fails
    cases fails

end Lopsided

end Datalog
