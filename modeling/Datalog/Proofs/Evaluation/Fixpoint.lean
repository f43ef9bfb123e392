import Datalog.Proofs.Derivation
import Datalog.Proofs.Evaluation.Round
import Datalog.Proofs.Planning

/-!
# Proofs/Evaluation/Fixpoint — evaluation reaches the least fixpoint

The least closed set of facts is what an evaluation is on the way to (`Context.ends_closure`), and
when nothing waits any more the store is closed; so an evaluation that ends well leaves exactly that
set, whatever the schedule and the settings (`Evaluation.least_fixpoint`).
-/

namespace Datalog

/-- **The stratum is what planning makes of the rules**, over some store; the numbers of their
variables have been taken before. -/
def Stratum.PlannedFrom (mode : Unification) (rules : List Rule) (s : Stratum) : Prop :=
  ∃ fns st st', (∀ rule ∈ rules, ∀ v ∈ rule.occurrences, v.number < st.next) ∧
    Stratum.plan mode fns rules st = .ok s st'

/-- **A planned stratum**, of rules none of which negates an atom over a relation that one of them
derives. -/
structure Stratum.Planned (mode : Unification) (rules : List Rule) (s : Stratum) : Prop where
  plan : s.PlannedFrom mode rules
  static : ∀ rule ∈ rules, ∀ a, .atom a ∈ rule.body → a.negated = true →
    a.relation ∉ rules.map (·.head.relation)

namespace Stratum

/-- The base clauses, as they are run. -/
def clauses (s : Stratum) : List Clause := s.base.map PlannedClause.clause

theorem heads_clauses {s : Stratum} {r : Relation} :
    s.Heads r ↔ ∃ c ∈ s.clauses, c.head.relation = r := by
  constructor
  · rintro ⟨p, hp, rfl⟩
    exact ⟨p.clause, List.mem_map_of_mem hp, rfl⟩
  · rintro ⟨c, hc, rfl⟩
    obtain ⟨p, hp, rfl⟩ := List.mem_map.1 hc
    exact ⟨p, hp, rfl⟩

theorem PlannedFrom.linked {mode : Unification} {rules : List Rule} {s : Stratum}
    (h : s.PlannedFrom mode rules) : s.Linked mode (rules.map (·.head.relation)) rules := by
  obtain ⟨_, _, _, below, ok⟩ := h
  exact (linked_of_plan below ok).1

namespace Planned

variable {mode : Unification} {rules : List Rule} {s : Stratum} {fns : Functions} {start : Facts}
  (h : s.Planned mode rules)
include h

omit h in
/-- Rules without negation. -/
theorem of_positive {st st' : PlanState}
    (below : ∀ rule ∈ rules, ∀ v ∈ rule.occurrences, v.number < st.next)
    (plan : Stratum.plan mode fns rules st = .ok s st')
    (positive : ∀ rule ∈ rules, ∀ a, .atom a ∈ rule.body → a.negated = false) :
    s.Planned mode rules := by
  refine ⟨⟨fns, st, st', below, plan⟩, fun rule hr a ha negated => ?_⟩
  rw [positive rule hr a ha] at negated
  cases negated

theorem linked : s.Linked mode (rules.map (·.head.relation)) rules := h.plan.linked

/-- What a clause looks up is an atom of a rule. -/
theorem exists_atom {c : Clause} (hc : c ∈ s.clauses) {g : Goal} (hg : .lookup g ∈ c.body) :
    ∃ rule ∈ rules, ∃ a, .atom a ∈ rule.body ∧ a.relation = g.relation ∧ a.negated = g.negated := by
  obtain ⟨p, hp, rfl⟩ := List.mem_map.1 hc
  obtain ⟨rule, hrule, yields⟩ := h.linked.base p hp
  obtain ⟨a, ha, asks⟩ := yields.asks hg
  exact ⟨rule, hrule, a, ha, asks.relation.symm, asks.negated.symm⟩

theorem heads_iff {r : Relation} :
    (∃ c ∈ s.clauses, c.head.relation = r) ↔ r ∈ rules.map (·.head.relation) :=
  heads_clauses.symm.trans h.linked.heads_iff

theorem differential (hs : start.Measured) : s.Differential fns rules start :=
  h.linked.differential h.static hs

end Planned

/-- The clauses of a stratum negate nothing that they derive. -/
theorem Differential.static_clauses {rules : List Rule} {s : Stratum} {fns : Functions}
    {start : Facts} (diff : s.Differential fns rules start) : Clause.Static s.clauses := by
  rintro c hc g hg hn k hk e
  obtain ⟨p, hp, rfl⟩ := List.mem_map.1 hc
  obtain ⟨q, hq, rfl⟩ := List.mem_map.1 hk
  exact diff.static p (.inl hp) g hg hn ⟨q, hq, e⟩

end Stratum

namespace Facts

variable {fns : Functions} {s : Stratum} {start : Facts}

/-- **Whatever is derived has the right arity.** -/
theorem measured_closure (orderly : ∀ c ∈ s.base, c.clause.Orderly) (hs : start.Measured) :
    (closure fns s.clauses start).Measured := by
  intro r t ht
  refine ht (fun r t => t.length = r.arity) hs fun c hc tuple hd => ?_
  obtain ⟨p, hp, rfl⟩ := List.mem_map.1 hc
  obtain ⟨b, _, value⟩ := hd
  exact (orderly p hp).length_eq value

end Facts

/-- **The closure is where an evaluation ends.** -/
theorem Context.ends_closure {cx : Context} {rules : List Rule} {start : Facts}
    (diff : cx.stratum.Differential cx.functions rules start) (hs : start.Measured) :
    cx.Ends start (.closure cx.functions cx.stratum.clauses start) where
  within := Facts.start_within_closure
  closed := Facts.closed_closure
  measured := Facts.measured_closure (fun _ hc => diff.orderly _ (.inl hc)) hs
  fixed _ _ hr h := (Facts.closure_heads h).resolve_right (hr ∘ Stratum.heads_clauses.2)

/-- **The least set of facts of the right arity that the rules add nothing to**, as far as
environments go: nothing in it depends on how the rules are compiled. -/
def Facts.admission (fns : Functions) (rules : List Rule) (start : Facts) : Facts := fun r t =>
  ∀ F : Facts, F.Measured → start.Within F → (Stratum.admitted fns rules start F).Within F → F r t

/-- **A store as an evaluation that ends well leaves it**: it has whatever the rules admit, and
nothing that is not in the closure. -/
structure Store.Complete (fns : Functions) (rules : List Rule) (s : Stratum) (start : Facts)
    (store : Store) : Prop where
  built : store.Built
  measured : Facts.Measured store.Holds
  holds : ∀ r t, store.Holds r t ↔ Facts.closure fns s.clauses start r t
  saturated : (Stratum.admitted fns rules start store.Holds).Within store.Holds

/-- **A complete store does not depend on how the rules were compiled.** -/
theorem Store.Complete.holds_iff_admission {fns : Functions} {mode : Unification} {rules : List Rule}
    {s : Stratum} {start : Facts} {store : Store} (h : store.Complete fns rules s start)
    (linked : s.Linked mode (rules.map (·.head.relation)) rules) (hs : start.Measured) {r : Relation}
    {t : Tuple} : store.Holds r t ↔ Facts.admission fns rules start r t := by
  constructor
  · intro held F hF above saturated
    refine Facts.closure_within above (fun c hc tuple hd => ?_) r t ((h.holds r t).1 held)
    obtain ⟨p, hp, rfl⟩ := List.mem_map.1 hc
    exact saturated _ _ (linked.admitted_of_derives hF hs hp hd)
  · intro admitted
    exact admitted _ h.measured (fun r t ht => (h.holds r t).2 (Facts.start_within_closure r t ht))
      h.saturated

/-- A store has finitely many facts. -/
theorem Store.exists_list (s : Store) : ∃ l : List (Relation × Tuple), ∀ r t,
    s.Holds r t ↔ (r, t) ∈ l := by
  refine ⟨s.entries.flatMap fun e => e.2.tuples.map fun t => (e.1, t), fun r t => ?_⟩
  rw [List.mem_flatMap, Store.Holds, Store.extent]
  constructor
  · intro ht
    cases hr : s.get? r with
    | none =>
      rw [hr] at ht
      cases ht
    | some e =>
      rw [hr] at ht
      exact ⟨(r, e), Assoc.get?_eq_some_iff.1 hr, List.mem_map_of_mem ht⟩
  · rintro ⟨⟨r', e⟩, he, ht⟩
    obtain ⟨t', stored, heq⟩ := List.mem_map.1 ht
    obtain ⟨rfl, rfl⟩ := Prod.mk.inj heq
    rw [Assoc.get?_eq_some_iff.2 he]
    exact stored

/-- **Finitely many facts** are there after some number of naive rounds. -/
theorem Facts.exists_naive_iterate {fns : Functions} {clauses : List Clause} {start : Facts}
    {l : List (Relation × Tuple)} (h : ∀ f ∈ l, ∃ n, (naive fns clauses)^[n] start f.1 f.2) :
    ∃ n, ∀ f ∈ l, (naive fns clauses)^[n] start f.1 f.2 := by
  induction l with
  | nil => exact ⟨0, nofun⟩
  | cons f l ih =>
    obtain ⟨m, hm⟩ := h f (List.mem_cons_self ..)
    obtain ⟨n, hn⟩ := ih fun k hk => h k (List.mem_cons_of_mem _ hk)
    refine ⟨max m n, List.forall_mem_cons.2 ⟨?_, fun k hk => ?_⟩⟩
    · exact naive_iterate_within (Nat.le_max_left ..) _ _ hm
    · exact naive_iterate_within (Nat.le_max_right ..) _ _ (hn k hk)

namespace Evaluation

variable {mode : Unification} {rules : List Rule} {cx : Context} {world : World} {e : Evaluation}
  {schedule : Schedule} {budget : Nat} {summary : Summary}

/-- **An evaluation that ends well leaves a complete store.** -/
theorem complete_of_run (planned : cx.stratum.Planned mode rules) (built : world.store.Built)
    (measured : (Store.Holds world.store).Measured)
    (h : run schedule budget { context := cx, world } = some (e, .ok summary)) :
    e.world.store.Complete cx.functions rules cx.stratum world.store.Holds := by
  have diff : cx.stratum.Differential cx.functions rules world.store.Holds :=
    planned.differential measured
  have ends := Context.ends_closure diff measured
  obtain ⟨store, saturated⟩ := saturated_of_run (e := { context := cx, world }) diff ends
    ⟨built, .refl _, Facts.start_within_closure⟩ h
  have measured' : Facts.Measured e.world.store.Holds := fun r t ht =>
    ends.measured r t (store.below r t ht)
  refine ⟨store.built, measured', fun r t => ⟨store.below r t, ?_⟩, saturated⟩
  refine Facts.closure_within store.above (fun c hc tuple hd => ?_) r t
  obtain ⟨p, hp, rfl⟩ := List.mem_map.1 hc
  exact saturated _ _ (planned.linked.admitted_of_derives measured' measured hp hd)

/-- **Evaluation computes the least fixpoint.**  If the evaluation of a planned stratum ends well,
on whatever schedule and with whatever settings, the store holds exactly the least set of facts
that contains those at the start and is closed under the base clauses.  One more naive round adds
nothing to it, and it is what finitely many of them make of the facts at the start. -/
theorem least_fixpoint (planned : cx.stratum.Planned mode rules) (built : world.store.Built)
    (measured : (Store.Holds world.store).Measured)
    (h : run schedule budget { context := cx, world } = some (e, .ok summary)) :
    (∀ r t, e.world.store.Holds r t ↔
      Facts.closure cx.functions cx.stratum.clauses world.store.Holds r t) ∧
    (∀ r t, Facts.naive cx.functions cx.stratum.clauses e.world.store.Holds r t ↔
      e.world.store.Holds r t) ∧
    ∃ n, ∀ r t, e.world.store.Holds r t ↔
      (Facts.naive cx.functions cx.stratum.clauses)^[n] world.store.Holds r t := by
  have closure := (complete_of_run planned built measured h).holds
  have diff : cx.stratum.Differential cx.functions rules world.store.Holds :=
    planned.differential measured
  have rounds (r : Relation) (t : Tuple) : e.world.store.Holds r t ↔
      ∃ n, (Facts.naive cx.functions cx.stratum.clauses)^[n] world.store.Holds r t :=
    (closure r t).trans (Facts.closure_iff_naive diff.static_clauses)
  obtain ⟨l, hl⟩ := e.world.store.exists_list
  obtain ⟨n, hn⟩ := Facts.exists_naive_iterate fun f hf => (rounds f.1 f.2).1 ((hl _ _).2 hf)
  have stage (r : Relation) (t : Tuple) : e.world.store.Holds r t ↔
      (Facts.naive cx.functions cx.stratum.clauses)^[n] world.store.Holds r t :=
    ⟨fun h => hn (r, t) ((hl r t).1 h), fun h => (rounds r t).2 ⟨n, h⟩⟩
  refine ⟨closure, fun r t => ⟨fun h => (rounds r t).2 ⟨n + 1, ?_⟩, Facts.within_naive r t⟩, n, stage⟩
  have same : e.world.store.Holds =
      (Facts.naive cx.functions cx.stratum.clauses)^[n] world.store.Holds :=
    funext fun r => funext fun t => propext (stage r t)
  rw [Function.iterate_succ_apply', ← same]
  exact h

end Evaluation

/-! ## Examples -/

namespace Reach

theorem below : ∀ rule ∈ rules, ∀ v ∈ rule.occurrences, v.number < 1 := by decide

theorem planned_ok : planned.1.Planned .assign rules := by
  obtain ⟨next, ok⟩ := plan_ok
  exact .of_positive below ok (by simp [rules])

theorem fit : planned.2.Fit := by
  have chain : store.Fit := ((Store.fit_empty.add rfl).add rfl).add rfl
  obtain ⟨next, ok⟩ := plan_ok
  exact (Stratum.prepares_of_plan below ok).fit chain

/-- The paths of a chain are the least fixpoint. -/
theorem exists_fixpoint : ∃ e summary,
    Evaluation.run Policy.newest 10 evaluation = some (e, .ok summary) ∧
      (∀ r t, e.world.store.Holds r t ↔
        Facts.closure ∅ planned.1.clauses planned.2.Holds r t) ∧
      (∀ r t, Facts.naive ∅ planned.1.clauses e.world.store.Holds r t ↔
        e.world.store.Holds r t) ∧
      ∃ n, ∀ r t, e.world.store.Holds r t ↔
        (Facts.naive ∅ planned.1.clauses)^[n] planned.2.Holds r t := by
  obtain ⟨e, summary, h⟩ := run_ok
  refine ⟨e, summary, h, ?_⟩
  have start : evaluation = { context := evaluation.context, world := evaluation.world } := rfl
  rw [start] at h
  exact Evaluation.least_fixpoint planned_ok fit.built fit.measured h

end Reach

namespace Torn

/-- What `p` is derived from. -/
def e : Relation := ⟨"e", 1, .extensional⟩

/-- What is joined with the torn relation. -/
def p : Relation := ⟨"p", 1, .bottomUp⟩

/-- The join. -/
def r : Relation := ⟨"r", 1, .bottomUp⟩

/-- `p(x) :- e(x).` and `r(x) :- q(x), p(x).` -/
def rules : List Rule :=
  let x : Term := .var ⟨"x", 0⟩
  [{ head := { relation := p, args := [x] }
     body := [.atom { relation := e, args := [x] }] },
    { head := { relation := r, args := [x] }
      body := [.atom { relation := q, args := [x] }, .atom { relation := p, args := [x] }] }]

theorem below : ∀ rule ∈ rules, ∀ v ∈ rule.occurrences, v.number < 1 := by decide

/-- No functions, and the default settings. -/
def context (s : Stratum) : Context where
  functions := ∅
  settings := {}
  stratum := s
  tracked := []

/-- The torn store with a fact of `e`. -/
def start : Store := (store.add e [.int 1]).1

theorem values {u : Relation} {t : Tuple} (ht : start.Holds u t) :
    t.length = u.arity ∧ ∀ x ∈ t, x.isValue = true := by
  rcases Store.holds_add_iff.1 ht with ht | ⟨rfl, rfl⟩
  · obtain ⟨rfl, rfl⟩ := holds_iff.1 ht
    exact ⟨rfl, by decide⟩
  · exact ⟨rfl, by decide⟩

/-- The same facts without any indices. -/
def mended : Store := ((Store.add ∅ q [.int 1]).1.add e [.int 1]).1

theorem fit_mended : mended.Fit := (Store.fit_empty.add rfl).add rfl

theorem holds_mended : mended.Holds = start.Holds := by
  have none {u : Relation} {t : Tuple} : ¬Store.Holds ∅ u t := nofun
  funext u t
  rw [mended, start, Store.holds_add_iff, Store.holds_add_iff, Store.holds_add_iff, holds_iff,
    or_iff_right none]

/-- **Where an insertion has failed, an evaluation that ends well need not be complete.**  When `p`
has its fact, the recursive clause looks for a fact of `q` in the index that goes without it. -/
theorem exists_missing : ∃ s st e summary,
    Stratum.plan .assign ∅ rules ⟨start, 1⟩ = .ok s st ∧ s.Planned .assign rules ∧
      st.store.Filled ∧
      (∀ u t, st.store.Holds u t → t.length = u.arity ∧ ∀ x ∈ t, x.isValue = true) ∧
      Evaluation.run Policy.newest 10 { context := context s, world := { store := st.store } } =
        some (e, .ok summary) ∧
      Facts.closure ∅ s.clauses st.store.Holds r [.int 1] ∧ ¬e.world.store.Holds r [.int 1] := by
  have ok : Plan.passes (Stratum.plan .assign ∅ rules) ⟨start, 1⟩ (fun s st =>
      (Evaluation.run Policy.newest 10
          { context := context s, world := { store := st.store } }).any
        (fun z => z.2.toBool && !z.1.world.store.contains r [.int 1]) &&
      (Evaluation.run Policy.newest 10 { context := context s, world := { store := mended } }).any
        fun z => z.2.toBool && z.1.world.store.contains r [.int 1]) = true := by cbv
  obtain ⟨s, st, plan, ok⟩ := Plan.exists_of_passes ok
  obtain ⟨torn, mend⟩ := Bool.and_eq_true_iff.1 ok
  obtain ⟨⟨e, _ | summary⟩, ran, ok⟩ := (Option.any_eq_true ..).1 torn
  · cases ok
  obtain ⟨⟨e', _ | summary'⟩, ran', ok'⟩ := (Option.any_eq_true ..).1 mend
  · cases ok'
  have planned : (context s).stratum.Planned .assign rules :=
    .of_positive below plan (by simp [rules])
  have prepares := Stratum.prepares_of_plan below plan
  have same : st.store.Holds = mended.Holds :=
    holds_mended ▸ funext fun u => funext fun t => propext (prepares.holds u t)
  have fit : ({ store := mended } : World).store.Fit := fit_mended
  have complete := Evaluation.complete_of_run planned fit.built fit.measured ran'
  refine ⟨s, st, e, summary, plan, planned, prepares.filled filled.add,
    fun u t ht => values ((prepares.holds u t).1 ht), ran, ?_, fun held => ?_⟩
  · rw [same]
    exact (complete.holds r _).1 (Store.contains_iff.1 ok')
  · have none := ok
    rw [Store.contains_iff.2 held] at none
    cases none

end Torn

end Datalog
