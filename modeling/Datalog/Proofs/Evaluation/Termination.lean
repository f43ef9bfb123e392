import Mathlib.Data.List.Sections
import Datalog.Proofs.Evaluation.Confined
import Datalog.Proofs.Evaluation.Fixpoint
import Datalog.Proofs.Evaluation.Rounds

/-!
# Proofs/Evaluation/Termination — flat rules terminate

Rules without calls and without constructors make no terms: whatever they derive is put together
from the terms of the store and of the rules.  So only finitely many facts can come to the store,
and as long as none does, every task that is made has less left to do than the one that makes it
(`Evaluation.Finite.exists_drain`).  A further round needs a fact that is new, so there are only
finitely many rounds as well (`Evaluation.Finite.exists_run`).
-/

namespace Datalog

/-! ## Flat rules -/

/-- **A flat term** is a variable or a literal. -/
def Term.IsFlat : Term → Prop
  | .var _ | .lit _ => True
  | .ctor .. | .call .. => False

/-- Being flat shows at the outermost symbol. -/
instance : DecidablePred Term.IsFlat
  | .var _ | .lit _ => .isTrue trivial
  | .ctor .. | .call .. => .isFalse id

theorem Term.stable_isFlat : Term.Stable Term.IsFlat where
  var _ := trivial
  arg h := h.elim
  substitute {σ t} hσ ht := by
    cases t with
    | var v =>
      rw [substitute]
      cases hv : σ.get? v with
      | none => trivial
      | some u => exact hσ v u hv
    | lit v => trivial
    | ctor f args | call f args => exact ht.elim

/-- **A rule of flat terms** calls no function and makes use of no constructor. -/
structure Rule.Flat (r : Rule) : Prop where
  head : ∀ t ∈ r.head.args, t.IsFlat
  body : ∀ l ∈ r.body, ∀ t ∈ l.terms, t.IsFlat

/-- **A clause of flat terms** takes nothing apart. -/
structure Clause.Flat (c : Clause) : Prop where
  head : ∀ t ∈ c.head.args, t.IsFlat
  steps : ∀ step ∈ c.body, ∀ t ∈ step.terms, t.IsFlat
  whole : ∀ t f ys, .destruct t f ys ∉ c.body

namespace Rule

variable {mode : Unification} {delta : Option Nat} {rule : Rule} {c : Clause}
  {pre post : List Literal} {a : Atom}

theorem Flat.clause (h : rule.Flat) (yields : rule.Yields mode delta c) : c.Flat := by
  obtain ⟨_, _, _, ok⟩ := yields
  obtain ⟨d, ok⟩ := clause_of_compile ok
  have made := made_of_clause Term.stable_isFlat h.body ok
  have head := made_head_of_clause Term.stable_isFlat h.head h.body ok
  obtain ⟨_, _, rfl, _⟩ := Compile.clause_ok ok
  refine ⟨head, fun step hs => (made.steps step hs).terms, fun t f ys hs => ?_⟩
  obtain ⟨args, flat⟩ := (made.steps _ hs).taken t f ys rfl
  exact flat.elim

theorem Flat.fronted (h : rule.Flat) (body : rule.body = pre ++ .atom a :: post) :
    (rule.fronted pre a post).Flat :=
  ⟨h.head, fun l hl => h.body l (body ▸ List.perm_middle.mem_iff.2 hl)⟩

end Rule

/-- **The clauses of flat rules** are flat. -/
theorem Stratum.Linked.flat {mode : Unification} {heads : List Relation} {rules : List Rule}
    {s : Stratum} (h : s.Linked mode heads rules) (flat : ∀ rule ∈ rules, rule.Flat)
    {c : PlannedClause} (hc : s.Has c) : c.clause.Flat := by
  rcases hc with hc | ⟨r, hc⟩
  · obtain ⟨rule, hrule, yields⟩ := h.base c hc
    exact (flat rule hrule).clause yields
  · obtain ⟨_, _, rule, hrule, _, pre, a, post, body, _, _, variant⟩ := h.recursive r c hc
    cases variant with
    | front yields => exact ((flat rule hrule).fronted body).clause yields
    | inPlace yields => exact (flat rule hrule).clause yields

/-! ## Terms that there are -/

/-- The terms of a clause. -/
def PlannedClause.terms (c : PlannedClause) : List Term :=
  c.clause.body.flatMap Step.terms ++ c.head.args

section

variable {V : Term → Prop} {fns : Functions} {b b' : Bindings}

/-- A flat term stands for what is bound, or for itself. -/
theorem Bindings.Among.flat (h : b.Among V) {t x : Term} (flat : t.IsFlat) (known : V t)
    (value : t.evaluate b fns = .ok x) : V x := by
  rw [Term.evaluate_eq_ok_iff] at value
  cases t with
  | var v => exact h v x ((Term.value?_var v).symm.trans value)
  | lit v => exact Option.some.inj value ▸ known
  | ctor f args | call f args => exact flat.elim

/-- **A flat clause binds and derives** only what has been bound or stands in it. -/
theorem Clause.Flat.carries {c : PlannedClause} (h : c.clause.Flat)
    (own : ∀ t ∈ c.terms, V t) : c.Carries fns V where
  performs := by
    intro slot hslot store b b' hb ok
    have hstep : slot.step ∈ c.clause.body := List.mem_map_of_mem hslot
    obtain ⟨step, index, split⟩ := slot
    cases step with
    | assign v t =>
      obtain ⟨d, hd, hb'⟩ := Outcome.except_map_ok_iff.1 ok
      obtain ⟨x, hx, hd⟩ := Outcome.except_bind_ok_iff.1 hd
      cases hd
      cases hb'
      have ht : t ∈ (Step.assign v t).terms := List.mem_singleton_self t
      refine hb.put (hb.flat (h.steps _ hstep t ht) (own t ?_) hx)
      exact List.mem_append_left _ (List.mem_flatMap.2 ⟨_, hstep, ht⟩)
    | check l r negated =>
      obtain ⟨go, _, hb'⟩ := Outcome.except_map_ok_iff.1 ok
      split at hb'
      · exact Option.some.inj hb' ▸ hb
      · cases hb'
    | destruct t f ys => exact (h.whole t f ys hstep).elim
    | lookup g =>
      rw [Slot.perform] at ok
      dsimp only at ok
      split at ok
      · split at ok
        · cases ok
        · cases ok
          exact hb
      · cases ok
  concludes := by
    intro b xs hb value x hx
    rw [Tuple.evaluate, Outcome.mapM_ok_iff] at value
    obtain ⟨t, ht, hx⟩ := Outcome.exists_of_forall₂ value.flip hx
    exact hb.flat (h.head t ht) (own t (List.mem_append_right _ ht)) hx

end

/-- **A stratum has finitely many clauses.** -/
theorem Stratum.exists_clauses (s : Stratum) :
    ∃ cs : List PlannedClause, ∀ c, s.Has c → c ∈ cs := by
  refine ⟨s.base ++ s.recursive.entries.flatMap Prod.snd, fun c hc => List.mem_append.2 ?_⟩
  refine hc.imp_right fun ⟨r, hc⟩ => ?_
  obtain ⟨cs, entry, hc⟩ := exists_of_mem_firedBy hc
  exact List.mem_flatMap.2 ⟨_, entry, hc⟩

/-- **A store has finitely many terms** to offer. -/
theorem Store.exists_terms (s : Store) :
    ∃ terms : List Term, ∀ r t, s.Offers r t → t.Among (· ∈ terms) := by
  -- what an extent has to offer, whether in its tuples or in the groups of an index
  let tuples (e : Extent) : List Tuple :=
    e.tuples ++ e.indices.flatMap fun i => i.groups.entries.flatMap Prod.snd
  refine ⟨s.entries.flatMap fun entry => (tuples entry.2).flatten, fun r t offers x hx => ?_⟩
  have inExtent : t ∈ tuples (s.extent r) := by
    refine List.mem_append.2 (offers.imp_right fun ⟨i, hi, values, ht⟩ => ?_)
    refine List.mem_flatMap.2 ⟨i, hi, ?_⟩
    rw [Index.group] at ht
    cases hgroup : i.groups.get? values with
    | none =>
      rw [hgroup] at ht
      cases ht
    | some group =>
      rw [hgroup] at ht
      exact List.mem_flatMap.2 ⟨_, Assoc.get?_eq_some_iff.1 hgroup, ht⟩
  rw [extent] at inExtent
  cases hr : s.get? r with
  | none =>
    rw [hr] at inExtent
    cases inExtent
  | some extent =>
    rw [hr] at inExtent
    exact List.mem_flatMap.2 ⟨_, Assoc.get?_eq_some_iff.1 hr, List.mem_flatten.2 ⟨t, inExtent, hx⟩⟩

/-- **A fact that the clauses could derive** from the terms. -/
def Facts.conceivable (cs : List PlannedClause) (terms : List Term) : Facts := fun r t =>
  ∃ c ∈ cs, r = c.head.relation ∧ t.length = c.head.args.length ∧ t.Among (· ∈ terms)

/-- **There are finitely many such facts.** -/
theorem Facts.exists_conceivable (cs : List PlannedClause) (terms : List Term) :
    ∃ all : Finset (Relation × Tuple), ∀ r t, conceivable cs terms r t → (r, t) ∈ all := by
  have choices {n : Nat} {t : Tuple} (length : t.length = n) (among : t.Among (· ∈ terms)) :
      t ∈ List.sections (List.replicate n terms) := by
    refine List.mem_sections.2 ?_
    induction t generalizing n with
    | nil =>
      subst length
      exact .nil
    | cons x t ih =>
      subst length
      exact .cons (among x (List.mem_cons_self ..))
        (ih rfl fun y hy => among y (List.mem_cons_of_mem _ hy))
  refine ⟨(cs.flatMap fun c => (List.sections (List.replicate c.head.args.length terms)).map
    (c.head.relation, ·)).toFinset, ?_⟩
  rintro r t ⟨c, hc, rfl, length, among⟩
  refine List.mem_toFinset.2 (List.mem_flatMap.2 ⟨c, hc, List.mem_map_of_mem ?_⟩)
  exact choices length among

/-! ## Facts that are missing -/

namespace Store

variable {all : Finset (Relation × Tuple)} {s s' : Store}

/-- **How many of the facts are not stored.** -/
def missing (all : Finset (Relation × Tuple)) (s : Store) : Nat :=
  (all.filter fun f => s.contains f.1 f.2 = false).card

theorem not_contains_iff {r : Relation} {t : Tuple} : s.contains r t = false ↔ ¬s.Holds r t := by
  rw [← contains_iff, Bool.not_eq_true]

/-- **Something that comes to the store** is no longer missing. -/
theorem missing_lt (within : s.Holds.Within s'.Holds) {r : Relation} {t : Tuple}
    (mem : (r, t) ∈ all) (now : s'.Holds r t) (new : ¬s.Holds r t) :
    s'.missing all < s.missing all := by
  refine Finset.card_lt_card (Finset.ssubset_iff_of_subset (fun f hf => ?_) |>.2 ⟨(r, t), ?_, ?_⟩)
  · rw [Finset.mem_filter, not_contains_iff] at hf ⊢
    exact ⟨hf.1, fun held => hf.2 (within _ _ held)⟩
  · exact Finset.mem_filter.2 ⟨mem, not_contains_iff.2 new⟩
  · exact fun h => not_contains_iff.1 (Finset.mem_filter.1 h).2 now

end Store

/-! ## Termination -/

namespace Evaluation

/-- **Clauses with finite means**: they pass on no terms but those listed, to begin with the store
has no others to offer, and all facts that could be derived from them are listed too. -/
structure Finite (e : Evaluation) (terms : List Term) (all : Finset (Relation × Tuple)) : Prop where
  carries : ∀ c, e.context.stratum.Has c → c.Carries e.context.functions (· ∈ terms)
  offered : ∀ r t, e.world.store.Offers r t → t.Among (· ∈ terms)
  conceivable : ∀ c, e.context.stratum.Has c → ∀ t : Tuple, t.length = c.head.args.length →
    t.Among (· ∈ terms) → (c.head.relation, t) ∈ all

theorem exists_finite {e : Evaluation} {mode : Unification} {rules : List Rule}
    (planned : e.context.stratum.PlannedFrom mode rules) (flat : ∀ rule ∈ rules, rule.Flat) :
    ∃ terms all, e.Finite terms all := by
  obtain ⟨cs, hcs⟩ := e.context.stratum.exists_clauses
  obtain ⟨stored, offered⟩ := e.world.store.exists_terms
  obtain ⟨all, hall⟩ := Facts.exists_conceivable cs (stored ++ cs.flatMap PlannedClause.terms)
  refine ⟨_, all, fun c hc => (planned.linked.flat flat hc).carries fun t ht => ?_,
    fun r t h x hx => ?_, fun c hc t length among => hall _ t ⟨c, hcs c hc, rfl, length, among⟩⟩
  · exact List.mem_append_right _ (List.mem_flatMap.2 ⟨c, hcs c hc, ht⟩)
  · exact List.mem_append_left _ (offered r t h x hx)

variable {e : Evaluation} {a : Agenda Task World} {n : Nat} {start : Store} {terms : List Term}
  {all : Finset (Relation × Tuple)}

namespace Finite

variable (finite : e.Finite terms all)
include finite

/-- **What a task adds** is one of the facts listed. -/
theorem mem_of_run (failed : Bool) {task : Task} {world : World}
    (confined : task.Confined (· ∈ terms) e.context.stratum)
    (hworld : world.Confined (· ∈ terms)) {r : Relation} {t : Tuple}
    (now : (task.run e.context failed world).world.store.Holds r t)
    (new : ¬world.store.Holds r t) : (r, t) ∈ all := by
  obtain ⟨rfl, length⟩ := ((Task.run_grows _ failed _ _).1.entered r t now).resolve_left new
  have after := (Work.run_confined failed (finite.carries _ confined.has) confined hworld).1
  exact finite.conceivable _ confined.has t length (after.offered _ t (.inl now))

/-- **What an evaluation adds** is one of the facts listed. -/
theorem mem_of_visits (visits : e.Visits a) {r : Relation} {t : Tuple}
    (now : a.world.store.Holds r t) (new : ¬e.world.store.Holds r t) : (r, t) ∈ all := by
  have bounded := visits.keeps
    (W := fun world => world.Confined (· ∈ terms) ∧
      ∀ r t, world.store.Holds r t → e.world.store.Holds r t ∨ (r, t) ∈ all)
    (T := fun task => task.Confined (· ∈ terms) e.context.stratum)
    ⟨⟨⟨finite.offered, nofun⟩, fun _ _ => .inl⟩, confined_base rfl⟩
    (fun failed task world confined ⟨hworld, bounded⟩ => ?_)
    fun world ⟨hworld, bounded⟩ => ⟨⟨⟨hworld.offered, nofun⟩, bounded⟩, confined_seeded hworld⟩
  · exact (bounded.1.2 r t now).resolve_left new
  · obtain ⟨after, spawned⟩ :=
      Work.run_confined failed (finite.carries _ confined.has) confined hworld
    refine ⟨⟨after, fun r t now => ?_⟩, spawned⟩
    by_cases old : world.store.Holds r t
    · exact bounded r t old
    · exact .inr (finite.mem_of_run failed confined hworld now old)

/-- **A round ends**, on any schedule: a task that adds nothing makes only tasks that have less left
to do. -/
theorem exists_drain (schedule : Schedule) (h : e.InRound n start a) : ∃ enough b, ∀ budget ≥ enough,
    Agenda.drain (Task.run e.context) schedule budget a = some b := by
  refine Agenda.exists_drain (fun t => t.remaining.length)
    (fun world => world.store.missing all) (fun a i task hi inRound => ⟨inRound.runAt hi, ?_⟩) h
  obtain ⟨world, waiting⟩ := confined_of_visits finite.carries finite.offered inRound.visits
  have confined := waiting task (List.mem_iff_getElem?.2 ⟨i, hi⟩)
  obtain ⟨grows, quiet⟩ := Task.run_grows e.context a.fault.isSome task a.world
  by_cases same : (task.run e.context a.fault.isSome a.world).world.store.Holds.Within
    a.world.store.Holds
  · obtain ⟨rests, spawned⟩ := quiet same
    exact .inr ⟨by rw [rests.store], fun t ht => (spawned t ht).remaining⟩
  · simp only [Facts.Within, not_forall] at same
    obtain ⟨r, t, now, new⟩ := same
    exact .inl (Store.missing_lt grows.within (finite.mem_of_run _ confined world now new) now new)

/-- **The rounds end**: every further one needs a fact that has come to the store in the round
before it. -/
theorem exists_rest (schedule : Schedule) (h : e.InRound n start a) (waiting : a.waiting = [])
    (fine : a.fault = none) (phase : Phase) (history : List (List Task)) (number : Nat) :
    ∃ enough r, ∀ budget ≥ enough, ∀ limit ≥ enough,
      rounds schedule budget limit number { e with world := a.world, phase, history } = some r := by
  generalize hm : a.world.store.missing all = m
  induction m using Nat.strong_induction_on generalizing n start a phase history number with
  | _ m ih =>
  by_cases empty : seededTasks e.context a.world.delta = []
  · exact ⟨0, _, fun budget _ limit _ => rounds_of_nil empty⟩
  obtain ⟨enough, b, drained⟩ :=
    finite.exists_drain schedule (h.next waiting fine empty .refl)
  obtain ⟨next, waiting'⟩ := h.next_of_drain waiting fine empty (drained enough (Nat.le_refl _))
  have hround {budget : Nat} (hb : budget ≥ enough) :
      round schedule budget (seededTasks e.context a.world.delta)
        { e with world := a.world, phase := .recursiveRound number, history } =
      some ({ e with world := b.world, phase := .recursiveRound number,
                     history := b.finished :: history }, b.result) :=
    round_of_drain (drained budget hb)
  cases hfault : b.fault with
  | some f =>
    refine ⟨enough + 1, ({ e with
      world := b.world, phase := .failed, history := b.finished :: history }, .error f),
      fun budget hb limit hl => ?_⟩
    obtain ⟨limit, rfl⟩ : ∃ k, limit = k + 1 := ⟨limit - 1, by omega⟩
    rw [rounds_of_ne_nil empty, hround (by omega), Agenda.result_error_iff.2 hfault]
    rfl
  | none =>
    have fine' : b.result = .ok () := by rw [Agenda.result, hfault]
    obtain ⟨enough', r, rest⟩ : ∃ enough' r, ∀ budget ≥ enough', ∀ limit ≥ enough',
        rounds schedule budget limit (number + 1) { e with
          world := b.world, phase := .recursiveRound number, history := b.finished :: history } =
            some r := by
      by_cases last : seededTasks e.context b.world.delta = []
      · exact ⟨0, _, fun budget _ limit _ => rounds_of_nil last⟩
      · obtain ⟨r, x, waits⟩ := exists_waiting last
        obtain ⟨now, new⟩ := next.since.delta r x waits
        have mem := finite.mem_of_visits next.visits now fun held => new (h.within r x held)
        have fewer : b.world.store.missing all < m :=
          hm ▸ Store.missing_lt next.since.within mem now new
        exact ih _ fewer next waiting' hfault _ _ _ rfl
    refine ⟨max enough enough' + 1, r, fun budget hb limit hl => ?_⟩
    obtain ⟨limit, rfl⟩ : ∃ k, limit = k + 1 := ⟨limit - 1, by omega⟩
    rw [rounds_of_ne_nil empty, hround (by omega), fine']
    exact rest budget (by omega) limit (by omega)

/-- **An evaluation ends**, on any schedule. -/
theorem exists_run (schedule : Schedule) :
    ∃ enough r, ∀ budget ≥ enough, run schedule budget e = some r := by
  obtain ⟨enough, a, drained⟩ := finite.exists_drain schedule (.base .refl)
  obtain ⟨reaches, waiting⟩ := Agenda.reaches_of_drain (drained enough (Nat.le_refl _))
  have hround {budget : Nat} (hb : budget ≥ enough) :
      round schedule budget (baseTasks e.context) { e with phase := .baseRound } =
        some ({ e with world := a.world, phase := .baseRound,
                       history := a.finished :: e.history }, a.result) :=
    round_of_drain (drained budget hb)
  cases hfault : a.fault with
  | some f =>
    refine ⟨enough, ({ e with
      world := a.world, phase := .failed, history := a.finished :: e.history }, .error f),
      fun budget hb => ?_⟩
    rw [run, hround hb, Agenda.result_error_iff.2 hfault]
    rfl
  | none =>
    have fine : a.result = .ok () := by rw [Agenda.result, hfault]
    obtain ⟨enough', ⟨e', r⟩, rest⟩ := finite.exists_rest schedule (.base reaches)
      waiting hfault .baseRound (a.finished :: e.history) 1
    refine ⟨max enough enough', (e', r.map fun _ => e'.world.counters.since e.world.counters),
      fun budget hb => ?_⟩
    rw [run, hround (by omega), fine]
    change (rounds schedule budget budget 1 _).bind _ = _
    rw [rest budget (by omega) budget (by omega)]
    cases r <;> rfl

end Finite

/-- **Rounds are bounded, and flat rules terminate.**  Take any evaluation of a planned stratum, and
any agenda that it comes to in its `n`-th round, whatever the order of the tasks.  The rounds are
counted, and there are at most as many of them as facts that have come to the store before the round
started, and one more.  What would start the next round are tuples that were not stored when this
one began.  An evaluation that ends does so in such a round.  If no rule calls a function or makes
use of a constructor, it does end: on every schedule some budget is enough, and so is every larger
one. -/
theorem rounds_bounded {mode : Unification} {rules : List Rule}
    (planned : e.context.stratum.PlannedFrom mode rules) :
    (∀ n start a, e.InRound n start a →
      a.world.counters.rounds = e.world.counters.rounds + n ∧
      (∃ new : List (Relation × Tuple), new.Nodup ∧
        (∀ f, f ∈ new ↔ start.Holds f.1 f.2 ∧ ¬e.world.store.Holds f.1 f.2) ∧
        n ≤ new.length + 1) ∧
      ∀ t ∈ seededTasks e.context a.world.delta, ∃ r tuples, t.seed = some tuples ∧
        tuples ≠ [] ∧ t.clause ∈ e.context.stratum.firedBy r ∧
        ∀ x ∈ tuples, a.world.store.Holds r x ∧ ¬start.Holds r x) ∧
    (∀ schedule budget e' result, run schedule budget e = some (e', result) →
      ∃ n start a, e.InRound n start a ∧ a.waiting = [] ∧ e'.world = a.world) ∧
    ((∀ rule ∈ rules, rule.Flat) → ∀ schedule, ∃ enough r, ∀ budget ≥ enough,
      run schedule budget e = some r) := by
  refine ⟨fun n start a h => ⟨h.rounds_eq, h.exists_new, fun t => h.exists_fresh_seed⟩,
    fun schedule budget e' result h => ?_, fun flat schedule => ?_⟩
  · obtain ⟨_, n, start, a, inRound, waiting, world, _⟩ := exists_last_round h
    exact ⟨n, start, a, inRound, waiting, world⟩
  · obtain ⟨terms, all, finite⟩ := exists_finite planned flat
    exact finite.exists_run schedule

end Evaluation

/-! ## An example -/

namespace Reach

theorem flat : ∀ rule ∈ rules, rule.Flat := by
  have flat : ∀ rule ∈ rules, (∀ t ∈ rule.head.args, t.IsFlat) ∧
      ∀ l ∈ rule.body, ∀ t ∈ l.terms, t.IsFlat := by decide
  exact fun rule hr => ⟨(flat rule hr).1, (flat rule hr).2⟩

/-- The paths along the chain are found in two rounds, and oldest tasks first they are found too. -/
theorem exists_rounds : evaluation.context.stratum.PlannedFrom .assign rules ∧
    (∀ rule ∈ rules, rule.Flat) ∧
    (∃ e summary n start a, Evaluation.run Policy.newest 10 evaluation = some (e, .ok summary) ∧
      evaluation.InRound n start a ∧ e.world = a.world ∧ n = 2 ∧
      ∃ new : List (Relation × Tuple), new.Nodup ∧
        (∀ f, f ∈ new ↔ start.Holds f.1 f.2 ∧ ¬evaluation.world.store.Holds f.1 f.2) ∧
        2 ≤ new.length + 1) ∧
    ∃ enough r, ∀ budget ≥ enough,
      Evaluation.run (fun a => a.waiting.length - 1) budget evaluation = some r := by
  have planned : evaluation.context.stratum.PlannedFrom .assign rules := by
    obtain ⟨next, ok⟩ := plan_ok
    exact ⟨∅, _, _, by decide, ok⟩
  obtain ⟨bounded, ends, terminates⟩ := Evaluation.rounds_bounded planned
  refine ⟨planned, flat, ?_, terminates flat _⟩
  have twice : (Evaluation.run Policy.newest 10 evaluation).any (fun r =>
      r.2.toBool && r.1.world.counters.rounds == 2) = true := by cbv
  obtain ⟨⟨e, fault | summary⟩, h, two⟩ := (Option.any_eq_true ..).1 twice
  · cases two
  obtain ⟨n, start, a, inRound, _, world⟩ := ends _ _ _ _ h
  obtain ⟨counted, new, _⟩ := bounded n start a inRound
  have rounds : e.world.counters.rounds = 2 := by simpa [Except.toBool] using two
  have none : evaluation.world.counters.rounds = 0 := rfl
  obtain rfl : n = 2 := by
    rw [← world, rounds, none] at counted
    omega
  exact ⟨e, summary, 2, start, a, h, inRound, world, rfl, new⟩

end Reach

end Datalog
