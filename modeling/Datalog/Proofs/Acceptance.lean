import Datalog.Proofs.Compile.Renaming
import Datalog.Proofs.Planning

/-!
# Proofs/Acceptance — planning accepts the rules that compile

Planning compiles a rule as it is written, and then its variants.  Whether a rule compiles depends
neither on the marked atom nor on how many variables have been invented (`Rule.compile_iff`), so
the variant that leaves the atom in its place compiles where the rule itself has.  What is left to
go wrong is a rule that does not compile, or a stored tuple too short for an index
(`Stratum.plan_blames`).
-/

namespace Datalog

/-- **Compilation refuses the rule**, with variables that the rule does not have. -/
def Rule.Refuses (mode : Unification) (delta : Option Nat) (rule : Rule) (e : Rejection) : Prop :=
  ∃ next next', (∀ v ∈ rule.occurrences, v.number < next) ∧
    rule.compile mode delta next = .error e next'

/-- **Some fact is too short** for the relation that it is a fact of, one that the rule asks for. -/
def Rule.Overreaches (rule : Rule) (F : Facts) : Prop :=
  ∃ a t, .atom a ∈ rule.body ∧ F a.relation t ∧ t.length < a.relation.arity

/-- Facts of the right arity are long enough. -/
theorem Facts.Measured.not_overreaches {F : Facts} (h : F.Measured) (rule : Rule) :
    ¬rule.Overreaches F := by
  rintro ⟨a, t, _, ht, short⟩
  exact Nat.ne_of_lt short (h a.relation t ht)

namespace Plan

/-- **What the work blames** for failing satisfies `E`, wherever the next number is `n` or more and
only facts of `F` are stored. -/
def Blames {α : Type} (n : Nat) (F : Facts) (E : PlanError → Prop) (work : Plan α) : Prop :=
  ∀ st, n ≤ st.next → st.store.Holds.Within F → ∀ e st', work st = .error e st' → E e

namespace Blames

variable {α β : Type} {n : Nat} {F : Facts} {E : PlanError → Prop} {P : α → Prop}

theorem pure {b : β} : Blames n F E (Pure.pure b) :=
  fun _ _ _ _ _ h => (Outcome.pure_error_iff.1 h).elim

theorem bind {x : Plan α} {f : α → Plan β} (careful : Careful n P x) (hx : Blames n F E x)
    (hf : ∀ a, P a → Blames n F E (f a)) : Blames n F E (x >>= f) := by
  intro st hn within e st' h
  rcases Outcome.bind_error_iff.1 h with h | ⟨a, st₁, ok, h⟩
  · exact hx st hn within e st' h
  · obtain ⟨prepares, ha⟩ := (careful st hn).1 a st₁ ok
    exact hf a ha st₁ (Nat.le_trans hn prepares.next)
      (fun r t ht => within r t ((prepares.holds r t).1 ht)) e st' h

theorem foldlM {f : β → α → Plan β} {as : List α}
    (careful : ∀ b, ∀ a ∈ as, Careful n (fun _ => True) (f b a))
    (hf : ∀ b, ∀ a ∈ as, Blames n F E (f b a)) : ∀ {b : β}, Blames n F E (as.foldlM f b) := by
  induction as with
  | nil => exact pure
  | cons a as ih =>
    intro b
    rw [List.foldlM_cons]
    exact bind (careful b a (List.mem_cons_self ..)) (hf b a (List.mem_cons_self ..)) fun _ _ =>
      ih (fun b a ha => careful b a (List.mem_cons_of_mem _ ha))
        fun b a ha => hf b a (List.mem_cons_of_mem _ ha)

/-- The error that counts is that of the second attempt. -/
theorem tryCatch {x : Plan β} {f : PlanError → Plan β} {Q : β → Prop} (careful : Careful n Q x)
    (hf : ∀ e, Blames n F E (f e)) : Blames n F E (MonadExcept.tryCatch x f) := by
  intro st hn within e st' h
  obtain ⟨e₁, st₁, failed, h⟩ := Outcome.tryCatch_error_iff.1 h
  have prepares := (careful st hn).2 e₁ st₁ failed
  exact hf e₁ st₁ (Nat.le_trans hn prepares.next)
    (fun r t ht => within r t ((prepares.holds r t).1 ht)) e st' h

end Blames

variable {mode : Unification} {fns : Functions} {heads : List Relation} {rule : Rule} {n : Nat}
  {F : Facts} {E : PlanError → Prop}

theorem compile_blames {delta : Option Nat} (below : ∀ v ∈ rule.occurrences, v.number < n)
    (refused : ∀ rejection, rule.Refuses mode delta rejection → E (.rejected rejection)) :
    Blames n F E (compile mode delta rule) := by
  intro st hn _ e st' error
  rw [compile] at error
  split at error
  · cases error
  · next h =>
    cases error
    exact refused _ ⟨_, _, fun v hv => Nat.lt_of_lt_of_le (below v hv) hn, h⟩

/-- **A clause that cannot be indexed** asks for a relation with a tuple that is too short. -/
theorem slots_blames {head : Head} : ∀ {steps : List Step},
    (∀ g, .lookup g ∈ steps → g.args.length = g.relation.arity ∧ ∀ t m, F g.relation t →
      t.length < g.relation.arity → E (.misfit m)) → Blames n F E (slots fns head steps)
  | [], _ => .pure
  | step :: rest, goals => by
    have register {g : Goal} (hg : step = .lookup g) : Blames n F E (register g) := by
      intro st _ within e st' error
      obtain ⟨arity, short⟩ := goals g (hg ▸ List.mem_cons_self ..)
      rw [Plan.register] at error
      split at error
      · cases error
      · next m misfit =>
        cases error
        obtain ⟨t, p, ht, hp, hle⟩ := Store.exists_of_register misfit
        exact short t m (within _ t ht)
          (arity ▸ Nat.lt_of_le_of_lt hle (lt_of_boundPositions hp))
    have index : Blames n F E (indexOf step) := by
      cases step with
      | assign | check | destruct => exact .pure
      | lookup g =>
        rw [indexOf]
        split
        · exact .pure
        · exact register rfl
    refine .bind (indexOf_careful fun g hg => (goals g (hg ▸ List.mem_cons_self ..)).1) index
      fun _ _ => ?_
    refine .bind (slots_careful fun g hg => (goals g (List.mem_cons_of_mem _ hg)).1)
      (slots_blames fun g hg => goals g (List.mem_cons_of_mem _ hg)) fun _ _ => .pure

/-- **Indexing a clause of a rule** only fails where the rule overreaches. -/
theorem index_blames {c : Clause} (orderly : c.Orderly)
    (asks : ∀ g, .lookup g ∈ c.body → ∃ b mark, .atom b ∈ rule.body ∧ g.Asks mark b)
    (misfit : ∀ m, rule.Overreaches F → E (.misfit m)) : Blames n F E (index fns c) := by
  refine .bind (slots_careful (n := n) orderly.goals) (slots_blames fun g hg => ?_) fun _ _ => .pure
  obtain ⟨b, _, hb, asks⟩ := asks g hg
  exact ⟨orderly.goals g hg, fun t m ht short =>
    misfit m ⟨b, t, hb, asks.relation ▸ ht, asks.relation ▸ short⟩⟩

/-- **A rule that compiles has its variants**: the atom can stay where it is. -/
theorem deltaClause_blames {pre post : List Literal} {a : Atom} (fine : rule.refusal = none)
    (below : ∀ v ∈ rule.occurrences, v.number < n) (body : rule.body = pre ++ .atom a :: post) :
    Blames n F E (deltaClause mode rule pre.length (.atom a)) := by
  rw [deltaClause_eq body]
  have below' : ∀ v ∈ (rule.fronted pre a post).occurrences, v.number < n :=
    fun v hv => below v ((Rule.perm_fronted body).mem_iff.1 hv)
  refine .tryCatch (compile_careful below') fun _ => compile_blames below ?_
  rintro rejection ⟨next, next', below, refused⟩
  obtain ⟨c, next'', ok⟩ := (Rule.compile_iff below).2 fine
  cases refused.symm.trans ok

theorem addVariant_blames {s : Stratum} {l : Literal} {done rest : List Literal}
    (fine : rule.refusal = none) (below : ∀ v ∈ rule.occurrences, v.number < n)
    (body : rule.body = done ++ l :: rest) (misfit : ∀ m, rule.Overreaches F → E (.misfit m)) :
    Blames n F E (addVariant mode fns heads rule s (l, done.length)) := by
  cases l with
  | unify => exact .pure
  | atom a =>
    rw [addVariant]
    split
    · exact .pure
    · refine .bind (deltaClause_careful below body) (deltaClause_blames fine below body)
        fun c variant => ?_
      refine .bind (index_careful (n := n) (variant.orderly body))
        (index_blames (variant.orderly body) (fun g hg => ?_) misfit) fun _ _ => .pure
      obtain ⟨b, mark, hb, asks, _⟩ := variant.asks body hg
      exact ⟨b, mark, hb, asks⟩

/-- **A rule fails to be added** if it does not compile as it is written, or if it overreaches. -/
theorem addRule_blames {s : Stratum} (below : ∀ v ∈ rule.occurrences, v.number < n)
    (refused : ∀ rejection, rule.Refuses mode none rejection → E (.rejected rejection))
    (misfit : ∀ m, rule.Overreaches F → E (.misfit m)) :
    Blames n F E (addRule mode fns heads s rule) := by
  rw [addRule_eq]
  refine .bind (compile_careful below) (compile_blames below refused) fun c yields => ?_
  have fine : rule.refusal = none := by
    obtain ⟨_, _, below, ok⟩ := yields
    exact Rule.refusal_of_compile below ok
  refine .bind (index_careful (n := n) yields.orderly)
    (index_blames yields.orderly (fun g hg => ?_) misfit) fun base _ => ?_
  · obtain ⟨b, hb, asks⟩ := yields.asks hg
    exact ⟨b, false, hb, asks⟩
  · refine .foldlM (fun s li hli => ?_) fun s li hli => ?_
    all_goals obtain ⟨done, rest, body, numbered⟩ := exists_of_mem_zipIdx hli
    · exact numbered ▸ addVariant_careful below body
    · exact numbered ▸ addVariant_blames fine below body misfit

end Plan

namespace Stratum

variable {mode : Unification} {fns : Functions} {rules : List Rule} {st : PlanState}

/-- **Planning fails at a rule**, after all in front of it have been compiled: the rule does not
compile as it is written, or it overreaches. -/
theorem plan_blames {st' : PlanState} {e : PlanError}
    (below : ∀ rule ∈ rules, ∀ v ∈ rule.occurrences, v.number < st.next)
    (error : plan mode fns rules st = .error e st') : ∃ pre rule post,
      rules = pre ++ rule :: post ∧ (∀ r ∈ pre, ∃ c, r.Yields mode none c) ∧
      ((∃ rejection, rule.Refuses mode none rejection ∧ e = .rejected rejection) ∨
        ∃ m, rule.Overreaches st.store.Holds ∧ e = .misfit m) := by
  obtain ⟨pre, rule, post, s, st₁, rfl, before, error⟩ := Outcome.foldlM_error error
  refine ⟨pre, rule, post, rfl, fun r hr => ?_, ?_⟩
  · obtain ⟨linked, _⟩ := linked_empty.addRules
      (fun r hr => below r (List.mem_append_left _ hr)) before
    obtain ⟨c, _, yields, _⟩ := linked.rules r hr
    exact ⟨c.clause, yields⟩
  · have hrule : rule ∈ pre ++ rule :: post :=
      List.mem_append_right _ (List.mem_cons_self ..)
    have prepares : st.Prepares st₁ :=
      ((Plan.Careful.foldlM (Q := fun _ => True) (fun _ r hr =>
        Plan.addRule_careful (below r (List.mem_append_left _ hr))) trivial st
          (Nat.le_refl _)).1 s st₁ before).1
    refine Plan.addRule_blames (E := fun e => (∃ rejection, rule.Refuses mode none rejection ∧
        e = .rejected rejection) ∨ ∃ m, rule.Overreaches st.store.Holds ∧ e = .misfit m)
      (below rule hrule) (fun rejection h => .inl ⟨rejection, h, rfl⟩)
      (fun m h => .inr ⟨m, h, rfl⟩) st₁ prepares.next (fun r t => (prepares.holds r t).1) e st'
      error

/-- A rule that compiles from one counter compiles from any. -/
theorem compiles_of_yields {rule : Rule} {c : Clause} {n : Nat}
    (below : ∀ v ∈ rule.occurrences, v.number < n) (h : rule.Yields mode none c) :
    ∃ c n', rule.compile mode none n = .ok c n' := by
  obtain ⟨_, _, below', ok⟩ := h
  exact (Rule.compile_iff below).2 (Rule.refusal_of_compile below' ok)

/-- **Planning rejects what compilation rejects**: if no rule overreaches, it reports what is wrong
with the first rule that does not compile, up to numbering. -/
theorem plan_rejects (counter : Rule → Nat)
    (below : ∀ rule ∈ rules, ∀ v ∈ rule.occurrences, v.number < st.next)
    (below' : ∀ rule ∈ rules, ∀ v ∈ rule.occurrences, v.number < counter rule)
    (long : ∀ rule ∈ rules, ¬rule.Overreaches st.store.Holds) {e : PlanError} {st' : PlanState}
    (error : plan mode fns rules st = .error e st') : ∃ pre rule post,
      rules = pre ++ rule :: post ∧
      (∀ r ∈ pre, ∃ c n, r.compile mode none (counter r) = .ok c n) ∧
      ∃ rejection rejection' n, e = .rejected rejection ∧
        rule.compile mode none (counter rule) = .error rejection' n ∧
        rejection'.Like rule.occurrences rejection := by
  obtain ⟨pre, rule, post, rfl, before, blamed⟩ := plan_blames below error
  have hrule : rule ∈ pre ++ rule :: post := List.mem_append_right _ (List.mem_cons_self ..)
  refine ⟨pre, rule, post, rfl, fun r hr => ?_, ?_⟩
  · obtain ⟨c, yields⟩ := before r hr
    exact compiles_of_yields (below' r (List.mem_append_left _ hr)) yields
  · obtain ⟨rejection, ⟨next, next', belowNext, refused⟩, rfl⟩ | ⟨_, short, _⟩ := blamed
    · -- the counter makes no difference to whether the rule is refused
      cases h : rule.compile mode none (counter rule) with
      | ok c n =>
        obtain ⟨c', n', ok⟩ := compiles_of_yields belowNext ⟨_, _, below' rule hrule, h⟩
        cases refused.symm.trans ok
      | error rejection' n =>
        exact ⟨rejection, rejection', n, rfl, rfl,
          Rule.like_of_refused (below' rule hrule) belowNext h refused⟩
    · exact (long rule hrule short).elim

/-- **Planning accepts exactly the rules that compile as they are written**, each from a counter of
its own, and otherwise reports what is wrong with the first that does not, up to numbering. -/
theorem plan_iff (counter : Rule → Nat)
    (below : ∀ rule ∈ rules, ∀ v ∈ rule.occurrences, v.number < st.next)
    (below' : ∀ rule ∈ rules, ∀ v ∈ rule.occurrences, v.number < counter rule)
    (long : ∀ rule ∈ rules, ¬rule.Overreaches st.store.Holds) :
    ((∃ s st', plan mode fns rules st = .ok s st') ↔
      ∀ rule ∈ rules, ∃ c n, rule.compile mode none (counter rule) = .ok c n) ∧
    ∀ e st', plan mode fns rules st = .error e st' → ∃ pre rule post,
      rules = pre ++ rule :: post ∧
      (∀ r ∈ pre, ∃ c n, r.compile mode none (counter r) = .ok c n) ∧
      ∃ rejection rejection' n, e = .rejected rejection ∧
        rule.compile mode none (counter rule) = .error rejection' n ∧
        rejection'.Like rule.occurrences rejection := by
  refine ⟨⟨?_, fun all => ?_⟩, fun e st' => plan_rejects counter below below' long⟩
  · rintro ⟨s, st', ok⟩ rule hrule
    obtain ⟨c, _, yields, _⟩ := (linked_of_plan below ok).1.rules rule hrule
    exact compiles_of_yields (below' rule hrule) yields
  · cases h : plan mode fns rules st with
    | ok s st' => exact ⟨s, st', rfl⟩
    | error e st' =>
      obtain ⟨pre, rule, post, rfl, _, _, _, _, _, refused, _⟩ :=
        plan_rejects counter below below' long h
      obtain ⟨c, n, ok⟩ := all rule (List.mem_append_right _ (List.mem_cons_self ..))
      cases ok.symm.trans refused

end Stratum

namespace Detour

/-- The edges, which are supplied. -/
def hop : Relation := ⟨"hop", 2, .extensional⟩

/-- The nodes that can be reached. -/
def reach : Relation := ⟨"reach", 1, .bottomUp⟩

/-- The variable `x`. -/
def x : Term := .var ⟨"x", 0⟩

/-- The variable `y`. -/
def y : Term := .var ⟨"y", 0⟩

/-- `reach(y) :- hop(x, y), reach(add(x, 1)).`, whose recursive atom cannot go to the front. -/
def step : Rule where
  head := { relation := reach, args := [y] }
  body := [
    .atom { relation := hop, args := [x, y] },
    .atom { relation := reach, args := [.call "add" [x, .lit (.int 1)]] }]

/-- `reach(y) :- hop(x, x).`, where nothing binds `y`. -/
def loose : Rule where
  head := { relation := reach, args := [y] }
  body := [.atom { relation := hop, args := [x, x] }]

/-- A store with one fact, `hop(1, 2)`. -/
def store : Store := (Store.add ∅ hop [.lit (.int 1), .lit (.int 2)]).1

theorem fit_store : store.Fit := Store.fit_empty.add rfl

/-- The rule whose variant stays in place is planned, and the loose rule behind it is what planning
fails at. -/
theorem step_planned_loose_refused :
    (∃ s st', Stratum.plan .inline ∅ [step] ⟨store, 1⟩ = .ok s st') ∧
    ∃ rejection st',
      Stratum.plan .inline ∅ [step, loose] ⟨store, 1⟩ = .error (.rejected rejection) st' ∧
      ∃ rejection' n, loose.compile .inline none 7 = .error rejection' n ∧
        rejection'.Like loose.occurrences rejection := by
  have long (rule : Rule) : ¬rule.Overreaches store.Holds := fit_store.measured.not_overreaches rule
  have compiles : ∃ c n, step.compile .inline none 7 = .ok c n := ⟨_, _, rfl⟩
  have refused : ∃ e n, loose.compile .inline none 7 = .error e n := ⟨_, _, rfl⟩
  refine ⟨(Stratum.plan_iff (fun _ => 7) (by decide) (by decide)
    fun rule _ => long rule).1.2 ?_, ?_⟩
  · rintro _ (_ | ⟨_, ⟨⟩⟩)
    exact compiles
  · cases h : Stratum.plan .inline ∅ [step, loose] ⟨store, 1⟩ with
    | ok s st' =>
      have all := (Stratum.plan_iff (fun _ => 7) (by decide) (by decide) fun rule _ =>
        long rule).1.1 ⟨s, st', h⟩
      obtain ⟨c, n, ok⟩ := all loose (by simp)
      obtain ⟨e, n, refused⟩ := refused
      cases ok.symm.trans refused
    | error e st' =>
      obtain ⟨pre, rule, post, split, _, rejection, rejection', n, rfl, h', like⟩ :=
        (Stratum.plan_iff (fun _ => 7) (by decide) (by decide) fun rule _ => long rule).2 e st' h
      -- it is not the first rule, which compiles
      obtain rfl : rule = loose := by
        have hmem : rule ∈ [step, loose] :=
          split ▸ List.mem_append_right _ (List.mem_cons_self ..)
        rcases hmem with _ | ⟨_, _ | ⟨_, ⟨⟩⟩⟩
        · obtain ⟨c, n, ok⟩ := compiles
          cases ok.symm.trans h'
        · rfl
      exact ⟨rejection, st', rfl, rejection', n, h', like⟩

/-- A store with a fact that lacks the second of its values. -/
def shortStore : Store := (Store.add ∅ hop [.lit (.int 1)]).1

/-- `reach(x) :- hop(y, x), hop(x, y).`, which looks things up by the second value. -/
def back : Rule where
  head := { relation := reach, args := [x] }
  body := [.atom { relation := hop, args := [y, x] }, .atom { relation := hop, args := [x, y] }]

/-- The rule compiles, yet the index that it asks for cannot be built. -/
theorem back_unplanned : (∃ c n, back.compile .assign none 1 = .ok c n) ∧
    ¬∃ s st', Stratum.plan .assign ∅ [back] ⟨shortStore, 1⟩ = .ok s st' := by
  refine ⟨⟨_, _, rfl⟩, ?_⟩
  rintro ⟨s, st', ok⟩
  have stops : (Stratum.plan .assign ∅ [back]).passes ⟨shortStore, 1⟩ (fun _ _ => true) =
      false := by
    decide +kernel
  rw [Plan.passes, ok] at stops
  cases stops

end Detour

end Datalog
