import Datalog.Function.Builtin
import Datalog.Proofs.Evaluation.Failure
import Datalog.Proofs.Evaluation.Fixpoint
import Datalog.Proofs.Loops

/-!
# Proofs/Evaluation/Recovery — evaluating again after a fault

A fault drops batches and whatever waits in the delta, but the facts that are stored by then lie
between those at the start and their closure.  The next evaluation begins with the base clauses,
which read whole relations, so it makes up for everything that was dropped
(`Evaluation.recovers`).  Its functions need not be those of the first: it is enough that they
return what the first evaluation has seen.
-/

namespace Datalog

/-- The function called `name`, refusing arguments that it is not `made` with. -/
def Function.only (made : String → Tuple → Bool) (name : String) (f : Function) : Function :=
  { f with run := fun args => do
      let x ← f.run args
      if made name args then return x else refuse name "never made" }

namespace Functions

/-- **Only the calls in `made` return**; any other that would is refused. -/
def only (made : String → Tuple → Bool) (fns : Functions) : Functions where
  entries := fns.entries.map fun e => (e.1, e.2.only made e.1)
  nodup := by
    rw [List.map_map]
    exact fns.nodup

variable {made : String → Tuple → Bool} {fns : Functions} {name : String} {args : Tuple} {x : Term}

theorem get?_only : (fns.only made).get? name = (fns.get? name).map (·.only made name) := by
  change Assoc.find name (fns.entries.map fun e => (e.1, e.2.only made e.1)) =
    (Assoc.find name fns.entries).map _
  induction fns.entries with
  | nil => rfl
  | cons e es ih =>
    rw [List.map_cons, Assoc.find, Assoc.find]
    split
    · next h => rw [h, Option.map_some]
    · exact ih

/-- **What is left of the calls.** -/
theorem call_only : (fns.only made).call name args = .ok x ↔
    made name args = true ∧ fns.call name args = .ok x := by
  rw [call, call, get?_only]
  cases fns.get? name with
  | none =>
    constructor
    · rintro ⟨⟩
    · rintro ⟨_, ⟨⟩⟩
  | some f =>
    change (if f.arity = args.length then (f.only made name).run args else _) = _ ↔
      _ ∧ (if f.arity = args.length then f.run args else _) = _
    split
    · rw [Function.only, Outcome.except_bind_ok_iff]
      constructor
      · rintro ⟨y, hy, h⟩
        split at h
        · next hmade => exact ⟨hmade, hy.trans h⟩
        · cases h
      · rintro ⟨hmade, hx⟩
        exact ⟨x, hx, if_pos hmade⟩
    · constructor
      · rintro ⟨⟩
      · rintro ⟨_, ⟨⟩⟩

/-- If all calls return, nothing changes. -/
theorem only_all : fns.only (fun _ _ => true) = fns := by
  have same (name : String) (f : Function) : f.only (fun _ _ => true) name = f := by
    cases f with | mk arity costly run =>
    refine congrArg (Function.mk arity costly) (funext fun args => ?_)
    exact bind_pure (run args)
  refine Assoc.ext ((List.map_congr_left fun e _ => ?_).trans (List.map_id _))
  exact Prod.ext rfl (same e.1 e.2)

end Functions

namespace Evaluation

variable {mode : Unification} {rules : List Rule} {cx cx' : Context} {world : World}
  {e e' : Evaluation} {schedule schedule' : Schedule} {budget budget' : Nat} {fault : Fault}

/-- What can be seen of an evaluation: the world that it leaves, and its result. -/
def outcome (schedule : Schedule) (budget : Nat) (cx : Context) (world : World) :
    Option (World × Except Fault Summary) :=
  (run schedule budget { context := cx, world }).map fun r => (r.1.world, r.2)

/-- **The calls that return in an evaluation are among those in `made`**: it comes out the same if
no other call does. -/
def Makes (schedule : Schedule) (budget : Nat) (cx : Context) (world : World)
    (made : String → Tuple → Bool) : Prop :=
  outcome schedule budget { cx with functions := cx.functions.only made } world =
    outcome schedule budget cx world

theorem makes_all : Makes schedule budget cx world fun _ _ => true := by
  rw [Makes, Functions.only_all]

/-- **However an evaluation ends, the store is sound**: nothing is gone, and what is new is in the
closure. -/
theorem between_of_run (planned : cx.stratum.Planned mode rules) (fit : world.store.Fit)
    {result : Except Fault Summary}
    (h : run schedule budget { context := cx, world } = some (e, result)) :
    Store.Between world.store.Holds
      (Facts.closure cx.functions cx.stratum.clauses world.store.Holds) e.world.store := by
  have diff : cx.stratum.Differential cx.functions rules world.store.Holds :=
    planned.differential fit.measured
  have ends := Context.ends_closure diff fit.measured
  exact (halts (e := { context := cx, world }) diff.none ends
    ⟨fit.built, .refl _, Facts.start_within_closure⟩ fit.shaped h).1

/-- **After a fault nothing is lost.**  If the evaluation of a planned stratum fails, on whatever
schedule and with whatever settings, no fact is gone, and every fact that is new is one of a
relation that the rules derive and is there after finitely many naive rounds.  If the stratum is
evaluated once more on that store, with functions that return whatever the calls of the first
evaluation have returned, and this ends well, the store holds the least set of facts that contains
those at the very start and is closed under the base clauses. -/
theorem recovers (planned : cx.stratum.Planned mode rules) (fit : world.store.Fit)
    (failed : run schedule budget { context := cx, world } = some (e, .error fault)) :
    Facts.Within world.store.Holds e.world.store.Holds ∧
    (∀ r t, e.world.store.Holds r t → world.store.Holds r t ∨
      r ∈ rules.map (·.head.relation) ∧
        ∃ n, (Facts.naive cx.functions cx.stratum.clauses)^[n] world.store.Holds r t) ∧
    ∀ made, Makes schedule budget cx world made →
      ∀ (cx' : Context) (world' : World) schedule' budget' e' summary,
        cx'.stratum = cx.stratum → world'.store = e.world.store →
        (∀ name args x, made name args = true → cx.functions.call name args = .ok x →
          cx'.functions.call name args = .ok x) →
        run schedule' budget' { context := cx', world := world' } = some (e', .ok summary) →
        ∀ r t, e'.world.store.Holds r t ↔
          Facts.closure cx'.functions cx.stratum.clauses world.store.Holds r t := by
  have diff : cx.stratum.Differential cx.functions rules world.store.Holds :=
    planned.differential fit.measured
  have between := between_of_run planned fit failed
  refine ⟨between.above, fun r t ht => ?_, ?_⟩
  · have derived := between.below r t ht
    refine (Facts.closure_heads derived).imp_right fun heads => ⟨?_, ?_⟩
    · exact planned.linked.heads_iff.1 (Stratum.heads_clauses.2 heads)
    · exact (Facts.closure_iff_naive diff.static_clauses).1 derived
  · intro made makes cx' world' schedule' budget' e' summary stratum store agree again r t
    -- the first evaluation, with no calls but those that it makes
    obtain ⟨⟨e₁, _⟩, h₁, same⟩ : ∃ r, run schedule budget
        { context := { cx with functions := cx.functions.only made }, world } = some r ∧
          (r.1.world, r.2) = (e.world, .error fault) := by
      have seen : outcome schedule budget cx world = some (e.world, .error fault) := by
        rw [outcome, failed]
        rfl
      exact Option.map_eq_some_iff.1 (makes.trans seen)
    obtain ⟨same, rfl⟩ := Prod.mk.inj same
    let first : Context := { cx with functions := cx.functions.only made }
    have planned₁ : first.stratum.Planned mode rules := planned
    have between₁ := between_of_run planned₁ fit h₁
    rw [same] at between₁
    have functions : (cx.functions.only made).Within cx'.functions := by
      intro name args x hx
      obtain ⟨hmade, hx⟩ := Functions.call_only.1 hx
      exact agree name args x hmade hx
    have below := between₁.below.trans (Facts.closure_of_within functions)
    have measured : Facts.Measured e.world.store.Holds := fun r t ht =>
      Facts.measured_closure (fun _ hc => diff.orderly _ (.inl hc)) fit.measured r t
        (between.below r t ht)
    have planned' : cx'.stratum.Planned mode rules := stratum ▸ planned
    have complete := complete_of_run planned' (store ▸ between.built) (store ▸ measured) again
    rw [complete.holds, store, stratum]
    exact Facts.closure_of_between diff.static_clauses between.above below

end Evaluation

/-! ## Examples -/

namespace Retry

/-- The arguments. -/
def n : Relation := ⟨"n", 1, .extensional⟩

/-- The values of the function at the arguments. -/
def h : Relation := ⟨"h", 1, .bottomUp⟩

/-- `h(y) :- n(x), y = f(x).` -/
def rules : List Rule :=
  let x : Term := .var ⟨"x", 0⟩
  let y : Term := .var ⟨"y", 0⟩
  [{ head := { relation := h, args := [y] }
     body := [.atom { relation := n, args := [x] }, .unify y (.call "f" [x]) false] }]

/-- The identity, with or without an answer for 2. -/
def f (answers : Bool) : Function :=
  .unary "f" fun t => if t = .int 2 ∧ answers = false then refuse "f" "not yet" else .ok t

/-- The one function there is. -/
def functions (answers : Bool) : Functions := .ofList [("f", f answers)]

/-- The tuple that `f` knows comes first. -/
def store : Store := [[.int 1], [.int 2]].foldl (fun s t => (s.add n t).1) ∅

/-- The default settings, and nothing tracked. -/
def context (answers : Bool) (stratum : Stratum) : Context where
  functions := functions answers
  settings := {}
  stratum := stratum
  tracked := []

theorem agree {name : String} {args : Tuple} {x : Term}
    (ok : (functions false).call name args = .ok x) : (functions true).call name args = .ok x := by
  have found (answers : Bool) : (functions answers).get? name =
      if "f" = name then some (f answers) else none := Assoc.get?_put ..
  rw [Functions.call, found] at ok ⊢
  by_cases hname : "f" = name
  · rw [if_pos hname] at ok ⊢
    rcases args with _ | ⟨t, _ | ⟨_, _⟩⟩
    · cases ok
    · change (if t = .int 2 ∧ false = false then refuse "f" "not yet" else .ok t) = _ at ok
      have all : ¬(t = .int 2 ∧ true = false) := fun h => Bool.noConfusion h.2
      split at ok
      · cases ok
      · exact (if_neg all).trans ok
    · cases ok
  · rw [if_neg hname] at ok
    cases ok

/-- An evaluation fails over the second tuple; the next one makes up for it. -/
theorem exists_recovery : ∃ s st e fault e' summary,
    Stratum.plan .assign (functions false) rules ⟨store, 1⟩ = .ok s st ∧
      Evaluation.run Policy.newest 10
          { context := context false s, world := { store := st.store } } = some (e, .error fault) ∧
      Evaluation.run Policy.newest 10
          { context := context true s, world := { store := e.world.store } } =
        some (e', .ok summary) ∧
      (e.world.store.Holds h [.int 1] ∧ ¬e.world.store.Holds h [.int 2]) ∧
      ∀ r t, e'.world.store.Holds r t ↔
        Facts.closure (functions true) s.clauses st.store.Holds r t := by
  have ok : Plan.passes (Stratum.plan .assign (functions false) rules) ⟨store, 1⟩ (fun s st =>
      (Evaluation.run Policy.newest 10
          { context := context false s, world := { store := st.store } }).any fun r =>
        (!r.2.toBool &&
          (r.1.world.store.contains h [.int 1] && !r.1.world.store.contains h [.int 2])) &&
          (Evaluation.run Policy.newest 10
            { context := context true s, world := { store := r.1.world.store } }).any fun r =>
              r.2.toBool) = true := by cbv
  obtain ⟨s, st, plan, ok⟩ := Plan.exists_of_passes ok
  obtain ⟨⟨e, fault | _⟩, ran, ok⟩ := (Option.any_eq_true ..).1 ok
  · rw [Bool.and_eq_true, Bool.and_eq_true, Bool.and_eq_true] at ok
    obtain ⟨⟨_, one, two⟩, again⟩ := ok
    obtain ⟨⟨e', _ | summary⟩, again, ok'⟩ := (Option.any_eq_true ..).1 again
    · cases ok'
    have below : ∀ rule ∈ rules, ∀ v ∈ rule.occurrences, v.number < 1 := by decide
    have fit : st.store.Fit := by
      have filled : store.Fit := (Store.fit_empty.add rfl).add rfl
      exact (Stratum.prepares_of_plan below plan).fit filled
    have planned : (context false s).stratum.Planned .assign rules :=
      .of_positive below plan (by simp [rules])
    refine ⟨s, st, e, fault, e', summary, plan, ran, again, ⟨Store.contains_iff.1 one, ?_⟩, ?_⟩
    · exact fun h2 => by rw [Store.contains_iff.2 h2] at two; cases two
    · exact (Evaluation.recovers planned fit ran).2.2 _ Evaluation.makes_all (context true s)
        { store := e.world.store } _ _ _ _ rfl rfl (fun _ _ _ _ => agree) again
  · cases ok

end Retry

namespace Stale

/-- Pairs under a key. -/
def p : Relation := ⟨"p", 3, .extensional⟩

/-- The pairs under the key 0. -/
def q : Relation := ⟨"q", 2, .bottomUp⟩

/-- What cannot be computed. -/
def r : Relation := ⟨"r", 1, .bottomUp⟩

/-- `q(y, x) :- p(0, y, x).` and `r(div(y, 0)) :- p(0, y, x).` -/
def rules : List Rule :=
  let x : Term := .var ⟨"x", 0⟩
  let y : Term := .var ⟨"y", 0⟩
  [{ head := { relation := q, args := [y, x] }
     body := [.atom { relation := p, args := [.int 0, y, x] }] },
    { head := { relation := r, args := [.call "div" [y, .int 0]] }
      body := [.atom { relation := p, args := [.int 0, y, x] }] }]

/-- The second tuple is too short. -/
def fill (s : Store) : Store :=
  [[.int 0, .int 1, .int 2], [.int 0, .int 3], [.int 0, .int 4, .int 2]].foldl
    (fun s t => (s.add p t).1) s

/-- The stratum over the store, once that has been filled. -/
def evaluation (s : Stratum) (store : Store) : Evaluation where
  context := { functions := .builtin, settings := {}, stratum := s, tracked := [] }
  world := { store := fill store }

/-- With what the first clause derives from the long tuples. -/
def close (s : Store) : Store := (((fill s).add q [.int 1, .int 2]).1.add q [.int 4, .int 2]).1

/-- The short tuple takes over a value from the tuple before it, and what is stored by the time of
the fault is not in any naive round. -/
theorem underivable : ∃ s st e fault,
    Stratum.plan .assign .builtin rules ⟨∅, 1⟩ = .ok s st ∧
      Evaluation.run Policy.newest 10 (evaluation s st.store) = some (e, .error fault) ∧
      e.world.store.Holds q [.int 3, .int 2] ∧
      ∀ n, ¬(Facts.naive .builtin s.clauses)^[n] (fill st.store).Holds q [.int 3, .int 2] := by
  have ok : Plan.passes (Stratum.plan .assign .builtin rules) ⟨∅, 1⟩ (fun s st =>
      (Evaluation.run Policy.newest 10 (evaluation s st.store)).any (fun r =>
        !r.2.toBool && r.1.world.store.contains q [.int 3, .int 2]) &&
      (!(close st.store).contains q [.int 3, .int 2] &&
        (Loops.closes ⟨.builtin, close st.store, none⟩ s.clauses &&
          s.clauses.all fun c => c.body.all fun step => step.positiveGoal?.isSome))) = true := by cbv
  obtain ⟨s, st, plan, ok⟩ := Plan.exists_of_passes ok
  rw [Bool.and_eq_true, Bool.and_eq_true, Bool.and_eq_true] at ok
  obtain ⟨ran, missing, closes, positive⟩ := ok
  obtain ⟨⟨e, fault | _⟩, ran, ok⟩ := (Option.any_eq_true ..).1 ran
  · rw [Bool.and_eq_true] at ok
    refine ⟨s, st, e, fault, plan, ran, Store.contains_iff.1 ok.2, fun n derived => ?_⟩
    have positive : ∀ c ∈ s.clauses, ∀ g, .lookup g ∈ c.body → g.negated = false := by
      intro c hc g hg
      have some := List.all_eq_true.1 (List.all_eq_true.1 positive c hc) _ hg
      rw [Step.positiveGoal?] at some
      split at some
      · cases some
      · next hn => simpa using hn
    have within : (fill st.store).Holds.Within (close st.store).Holds := fun r t h =>
      Store.holds_add_iff.2 (.inl (Store.holds_add_iff.2 (.inl h)))
    have held := Facts.naive_iterate_of_closes closes positive within q _ derived
    rw [Store.contains_iff.2 held] at missing
    cases missing
  · cases ok

end Stale

namespace Torn

/-- What `q` is derived from. -/
def f : Relation := ⟨"f", 1, .extensional⟩

/-- `q(x) :- f(x).` and `r(x) :- e(x), q(x).` -/
def chained : List Rule :=
  let x : Term := .var ⟨"x", 0⟩
  [{ head := { relation := q, args := [x] }
     body := [.atom { relation := f, args := [x] }] },
    { head := { relation := r, args := [x] }
      body := [.atom { relation := e, args := [x] }, .atom { relation := q, args := [x] }] }]

/-- Facts of `e` and `f`, and indices of `q`, the first on a position that it does not have. -/
def intact : Store := ((indexed.add e [.int 1]).1.add f [.int 1]).1

/-- The same facts without any indices. -/
def plain : Store := ((Store.add ∅ e [.int 1]).1.add f [.int 1]).1

theorem holds_plain : plain.Holds = intact.Holds := by
  obtain ⟨_, _, first, _, second⟩ := indexed_ok
  have none {u : Relation} {t : Tuple} : indexed.Holds u t ↔ Store.Holds ∅ u t := by
    rw [Store.holds_register_iff second, Store.holds_register_iff first]
  funext u t
  rw [plain, intact, Store.holds_add_iff, Store.holds_add_iff, Store.holds_add_iff,
    Store.holds_add_iff, none]

theorem filled_intact : intact.Filled := by
  rw [intact]
  exact indexed_built.filled.add.add

/-- **Where an index is on a position that its relation lacks**, an insertion fails half-way, and
the next evaluation does not make up for it: the later index goes without the fact. -/
theorem exists_lost : ∃ s st e fault e' summary,
    Stratum.plan .assign ∅ chained ⟨intact, 1⟩ = .ok s st ∧ s.Planned .assign chained ∧
      st.store.Filled ∧ Facts.Measured st.store.Holds ∧
      Evaluation.run Policy.newest 10 { context := context s, world := { store := st.store } } =
        some (e, .error fault) ∧
      Evaluation.run Policy.newest 10 { context := context s, world := { store := e.world.store } } =
        some (e', .ok summary) ∧
      Facts.closure ∅ s.clauses st.store.Holds r [.int 1] ∧ ¬e'.world.store.Holds r [.int 1] := by
  have ok : Plan.passes (Stratum.plan .assign ∅ chained) ⟨intact, 1⟩ (fun s st =>
      (Evaluation.run Policy.newest 10
          { context := context s, world := { store := st.store } }).any (fun z =>
        !z.2.toBool && (Evaluation.run Policy.newest 10
            { context := context s, world := { store := z.1.world.store } }).any
          fun z => z.2.toBool && !z.1.world.store.contains r [.int 1])) = true := by decide +kernel
  have ok₁ : Plan.passes (Stratum.plan .assign ∅ chained) ⟨intact, 1⟩ (fun s _ =>
      (Evaluation.run Policy.newest 10 { context := context s, world := { store := plain } }).any
        fun z => z.2.toBool && z.1.world.store.contains r [.int 1]) = true := by decide +kernel
  obtain ⟨s, st, plan, torn⟩ := Plan.exists_of_passes ok
  have whole := Plan.of_passes ok₁ plan
  obtain ⟨⟨e, fault | _⟩, ran, ok⟩ := (Option.any_eq_true ..).1 torn
  · obtain ⟨⟨e', _ | summary⟩, again, ok⟩ := (Option.any_eq_true ..).1 (Bool.and_eq_true_iff.1 ok).2
    · cases ok
    obtain ⟨⟨e₁, _ | summary₁⟩, ran₁, ok₁⟩ := (Option.any_eq_true ..).1 whole
    · cases ok₁
    have below : ∀ rule ∈ chained, ∀ v ∈ rule.occurrences, v.number < 1 := by decide
    have planned : (context s).stratum.Planned .assign chained :=
      .of_positive below plan (by simp [chained])
    have prepares := Stratum.prepares_of_plan below plan
    have same : st.store.Holds = plain.Holds :=
      holds_plain ▸ funext fun u => funext fun t => propext (prepares.holds u t)
    have fit : ({ store := plain } : World).store.Fit := (Store.fit_empty.add rfl).add rfl
    have complete := Evaluation.complete_of_run planned fit.built fit.measured ran₁
    refine ⟨s, st, e, fault, e', summary, plan, planned,
      prepares.filled filled_intact, same ▸ fit.measured, ran, again, ?_, fun held => ?_⟩
    · rw [same]
      exact (complete.holds r _).1 (Store.contains_iff.1 ok₁)
    · have none := ok
      rw [Store.contains_iff.2 held] at none
      cases none
  · cases ok

end Torn

/-- **Where a fault does lose something, or leaves what is not derivable**: if an index is on a
position that its relation lacks, or a tuple is too short for its relation. -/
theorem Evaluation.exists_unrecovered :
    (∃ s st e fault, Stratum.plan .assign .builtin Stale.rules ⟨∅, 1⟩ = .ok s st ∧
      run Policy.newest 10 (Stale.evaluation s st.store) = some (e, .error fault) ∧
      e.world.store.Holds Stale.q [.int 3, .int 2] ∧
      ∀ n, ¬(Facts.naive .builtin s.clauses)^[n] (Stale.fill st.store).Holds Stale.q
        [.int 3, .int 2]) ∧
    ∃ s st e fault e' summary,
      Stratum.plan .assign ∅ Torn.chained ⟨Torn.intact, 1⟩ = .ok s st ∧
        s.Planned .assign Torn.chained ∧ st.store.Filled ∧ Facts.Measured st.store.Holds ∧
        run Policy.newest 10 { context := Torn.context s, world := { store := st.store } } =
          some (e, .error fault) ∧
        run Policy.newest 10 { context := Torn.context s, world := { store := e.world.store } } =
          some (e', .ok summary) ∧
        Facts.closure ∅ s.clauses st.store.Holds Torn.r [.int 1] ∧
        ¬e'.world.store.Holds Torn.r [.int 1] :=
  ⟨Stale.underivable, Torn.exists_lost⟩

end Datalog
