import Datalog.Meaning.Strata
import Datalog.Proofs.Derivation

/-!
# Proofs/Strata — closing under one stratum after the other

Each stratum tests negated lookups against the facts it starts from.  If the strata are in order,
these have by then all the facts that they are going to have of the relations in question, so
absence might as well be tested in the end (`Facts.stages_eq_iterated`), and what an earlier
stratum has closed stays closed (`Facts.closed_stages`).
-/

namespace Datalog

namespace Facts

variable {fns : Functions} {clauses earlier later : List Clause} {strata : List (List Clause)}
  {absent absent' start F : Facts} {r : Relation} {t : Tuple}

/-- **One closure after the other**, each with negated lookups tested against what it starts
from. -/
def stages (fns : Functions) : List (List Clause) → Facts → Facts
  | [], F => F
  | clauses :: rest, F => stages fns rest (closure fns clauses F)

theorem within_stages : start.Within (stages fns strata start) := by
  induction strata generalizing start with
  | nil => exact .refl _
  | cons clauses rest ih => exact start_within_closure.trans ih

/-- **Strata add nothing but heads.** -/
theorem stages_heads (h : stages fns strata start r t) :
    start r t ∨ ∃ clauses ∈ strata, ∃ c ∈ clauses, c.head.relation = r := by
  induction strata generalizing start with
  | nil => exact .inl h
  | cons clauses rest ih =>
    rcases ih h with h | ⟨later, hlater, heads⟩
    · exact (closure_heads h).imp_right fun heads => ⟨clauses, List.mem_cons_self .., heads⟩
    · exact .inr ⟨later, List.mem_cons_of_mem _ hlater, heads⟩

/-- For a relation without heads nothing changes. -/
theorem stages_iff (hr : ∀ clauses ∈ strata, ∀ c ∈ clauses, c.head.relation ≠ r) :
    stages fns strata start r t ↔ start r t := by
  refine ⟨fun h => (stages_heads h).resolve_right ?_, within_stages r t⟩
  rintro ⟨clauses, hclauses, c, hc, hr'⟩
  exact hr clauses hclauses c hc hr'

/-- Only the absence of what is asked for matters. -/
theorem closed_congr (same : ∀ c ∈ clauses, ∀ g, .lookup g ∈ c.body → g.negated = true →
    ∀ t, absent g.relation t ↔ absent' g.relation t) :
    F.Closed fns clauses absent ↔ F.Closed fns clauses absent' := by
  constructor
  · exact fun h c hc tuple hd => h c hc tuple (hd.imp (Scene.over_serves (.refl fns) (.refl _)
      fun g hg hn t => (same c hc g hg hn t).1))
  · exact fun h c hc tuple hd => h c hc tuple (hd.imp (Scene.over_serves (.refl fns) (.refl _)
      fun g hg hn t => (same c hc g hg hn t).2))

theorem closureAgainst_congr (same : ∀ c ∈ clauses, ∀ g, .lookup g ∈ c.body → g.negated = true →
    ∀ t, absent g.relation t ↔ absent' g.relation t) :
    closureAgainst fns clauses absent start = closureAgainst fns clauses absent' start := by
  funext r t
  exact propext ⟨fun h F hF hc => h F hF ((closed_congr same).2 hc),
    fun h F hF hc => h F hF ((closed_congr same).1 hc)⟩

end Facts

namespace Clause.Stratified

variable {fns : Functions} {clauses : List Clause} {strata : List (List Clause)} {start : Facts}

theorem tail (h : Stratified (clauses :: strata)) : Stratified strata :=
  ⟨fun c hc => h.static c (List.mem_cons_of_mem _ hc), (List.pairwise_cons.1 h.settled).2⟩

/-- **What the first stratum reads** no later one changes. -/
theorem reads_iff (h : Stratified (clauses :: strata)) {c : Clause} (hc : c ∈ clauses) {g : Goal}
    (hg : .lookup g ∈ c.body) (t : Tuple) :
    Facts.stages fns strata start g.relation t ↔ start g.relation t :=
  Facts.stages_iff fun later hlater k hk =>
    (List.pairwise_cons.1 h.settled).1 later hlater c hc g hg k hk

/-- **What the first stratum asks the absence of** nothing changes at all. -/
theorem absent_iff (h : Stratified (clauses :: strata)) {c : Clause} (hc : c ∈ clauses) {g : Goal}
    (hg : .lookup g ∈ c.body) (hn : g.negated = true) (t : Tuple) :
    Facts.stages fns (clauses :: strata) start g.relation t ↔ start g.relation t := by
  refine (h.reads_iff hc hg t).trans ⟨fun ht => (Facts.closure_heads ht).resolve_right ?_,
    Facts.start_within_closure _ t⟩
  rintro ⟨k, hk, hr⟩
  exact h.static clauses (List.mem_cons_self ..) c hc g hg hn k hk hr

end Clause.Stratified

namespace Facts

variable {fns : Functions} {strata : List (List Clause)} {start : Facts}

/-- **The strata arrive at the iterated fixpoint**, with absence meant for good. -/
theorem stages_eq_iterated (h : Clause.Stratified strata) :
    stages fns strata start = iterated fns (stages fns strata start) strata start := by
  induction strata generalizing start with
  | nil => rfl
  | cons clauses rest ih =>
    have first : closure fns clauses start =
        closureAgainst fns clauses (stages fns (clauses :: rest) start) start :=
      closureAgainst_congr fun c hc g hg hn t => (h.absent_iff hc hg hn t).symm
    rw [iterated, ← first]
    exact ih h.tail

/-- **What a stratum has closed stays closed.** -/
theorem closed_stages (h : Clause.Stratified strata) :
    ∀ clauses ∈ strata,
      (stages fns strata start).Closed fns clauses (stages fns strata start) := by
  induction strata generalizing start with
  | nil => nofun
  | cons first rest ih =>
    refine List.forall_mem_cons.2 ⟨fun c hc tuple hd => ?_, ih h.tail⟩
    have stored : closure fns first start c.head.relation tuple := by
      refine closed_closure c hc tuple (hd.imp ⟨.refl fns, ?_, ?_⟩)
      · exact fun g hg t ht =>
          Scene.offers_over.2 ((h.reads_iff hc hg t).1 (Scene.offers_over.1 ht))
      · exact fun g hg hn t => (h.absent_iff hc hg hn t).2
    have later : (closure fns first start).Within (stages fns (first :: rest) start) := within_stages
    exact later _ _ stored

end Facts

end Datalog
