import Datalog.Proofs.Filling
import Datalog.Proofs.Indices
import Datalog.Proofs.Stratum

/-!
# Proofs/Planning — what planning does to a store

Planning adds indices to the store and takes numbers for invented variables, and that is all it
does, whether it ends well or a rule is refused half-way (`PlanState.Prepares`).  The clauses it
indexes are in order, so the indices are on positions that their relations have, and a store that
is fit to be evaluated over stays so (`Store.Fit`).
-/

namespace Datalog

/-- **A store fit to be evaluated over**: its indices are on positions of their relations, and its
tuples have the right arity. -/
structure Store.Fit (s : Store) : Prop where
  filled : s.Filled
  shaped : s.Shaped
  measured : Facts.Measured s.Holds

/-- Its indices are complete, since no insertion can have failed. -/
theorem Store.Fit.built {s : Store} (h : s.Fit) : s.Built := h.filled.built h.shaped h.measured

theorem Store.fit_empty : Store.Fit ∅ := ⟨.empty, shaped_empty, fun _ _ h => nomatch h⟩

theorem Facts.Measured.add {s : Store} {r : Relation} {tuple : Tuple} (h : Measured s.Holds)
    (hlen : tuple.length = r.arity) : Measured (s.add r tuple).1.Holds := by
  intro r' t ht
  rcases Store.holds_add_iff.1 ht with ht | ⟨rfl, rfl⟩
  · exact h r' t ht
  · exact hlen

/-- A tuple of the right arity can be added. -/
theorem Store.Fit.add {s : Store} {r : Relation} {tuple : Tuple} (h : s.Fit)
    (hlen : tuple.length = r.arity) : (s.add r tuple).1.Fit :=
  ⟨h.filled.add, h.shaped.add, h.measured.add hlen⟩

/-- An index on positions of the relation can be registered. -/
theorem Store.Fit.register {s s' : Store} {r : Relation} {positions : List Nat} {n : IndexNumber}
    (h : s.Fit) (hp : ∀ p ∈ positions, p < r.arity) (ok : s.register r positions = .ok (s', n)) :
    s'.Fit :=
  ⟨h.filled.register ok, h.shaped.register hp ok,
    fun r' t ht => h.measured r' t ((holds_register_iff ok).1 ht)⟩

/-- **Prepared for a stratum**: the facts are the same, indices have only been added, and numbers
have only been taken. -/
structure PlanState.Prepares (st st' : PlanState) : Prop where
  built : st.store.Built → st'.store.Built
  filled : st.store.Filled → st'.store.Filled
  shaped : st.store.Shaped → st'.store.Shaped
  holds : ∀ r t, st'.store.Holds r t ↔ st.store.Holds r t
  next : st.next ≤ st'.next
  further : st.store.Further st'.store

namespace PlanState.Prepares

variable {st st' st'' : PlanState}

/-- Nothing but the number of the next variable is another. -/
theorem of_next (store : st'.store = st.store) (next : st.next ≤ st'.next) : st.Prepares st' where
  built h := store ▸ h
  filled h := store ▸ h
  shaped h := store ▸ h
  holds _ _ := by rw [store]
  next := next
  further := store ▸ .refl _

theorem refl (st : PlanState) : st.Prepares st := of_next rfl (Nat.le_refl _)

theorem trans (h : st.Prepares st') (h' : st'.Prepares st'') : st.Prepares st'' where
  built := h'.built ∘ h.built
  filled := h'.filled ∘ h.filled
  shaped := h'.shaped ∘ h.shaped
  holds r t := (h'.holds r t).trans (h.holds r t)
  next := Nat.le_trans h.next h'.next
  further := h.further.trans h'.further

theorem measured (h : st.Prepares st') (hs : Facts.Measured st.store.Holds) :
    Facts.Measured st'.store.Holds :=
  fun r t ht => hs r t ((h.holds r t).1 ht)

theorem fit (h : st.Prepares st') (fit : st.store.Fit) : st'.store.Fit :=
  ⟨h.filled fit.filled, h.shaped fit.shaped, h.measured fit.measured⟩

end PlanState.Prepares

namespace Plan

/-- The work ends well, and what it results in passes the test. -/
def passes {α : Type} (work : Plan α) (st : PlanState) (test : α → PlanState → Bool) : Bool :=
  match work st with
  | .ok x st' => test x st'
  | .error .. => false

theorem exists_of_passes {α : Type} {work : Plan α} {st : PlanState} {test : α → PlanState → Bool}
    (h : work.passes st test = true) : ∃ x st', work st = .ok x st' ∧ test x st' = true := by
  rw [passes] at h
  split at h
  · next x st' ok => exact ⟨x, st', ok, h⟩
  · cases h

theorem of_passes {α : Type} {work : Plan α} {st st' : PlanState} {test : α → PlanState → Bool}
    {x : α} (h : work.passes st test = true) (ok : work st = .ok x st') : test x st' = true := by
  rw [passes, ok] at h
  exact h

/-- **The work prepares** wherever the next number is `n` or more, however it ends, and what it
results in has the property `Q`. -/
def Careful {α : Type} (n : Nat) (Q : α → Prop) (work : Plan α) : Prop :=
  ∀ st, n ≤ st.next → (∀ a st', work st = .ok a st' → st.Prepares st' ∧ Q a) ∧
    ∀ e st', work st = .error e st' → st.Prepares st'

namespace Careful

variable {α β : Type} {n : Nat} {P : α → Prop} {Q : β → Prop}

theorem pure {b : β} (hb : Q b) : Careful n Q (Pure.pure b) := by
  refine fun st _ => ⟨fun b' st' ok => ?_, fun _ _ h => (Outcome.pure_error_iff.1 h).elim⟩
  obtain ⟨rfl, rfl⟩ := Outcome.pure_ok_iff.1 ok
  exact ⟨.refl _, hb⟩

theorem imp {x : Plan α} {P' : α → Prop} (h : Careful n P x) (weaker : ∀ a, P a → P' a) :
    Careful n P' x :=
  fun st hn => (h st hn).imp_left fun ok a st' h => (ok a st' h).imp_right (weaker a)

theorem bind {x : Plan α} {f : α → Plan β} (hx : Careful n P x)
    (hf : ∀ a, P a → Careful n Q (f a)) : Careful n Q (x >>= f) := by
  intro st hn
  have first := hx st hn
  refine ⟨fun b st' ok => ?_, fun e st' h => ?_⟩
  · obtain ⟨a, st₁, ok₁, ok⟩ := Outcome.bind_ok_iff.1 ok
    obtain ⟨prepares, ha⟩ := first.1 a st₁ ok₁
    obtain ⟨prepares', hb⟩ := (hf a ha st₁ (Nat.le_trans hn prepares.next)).1 b st' ok
    exact ⟨prepares.trans prepares', hb⟩
  · rcases Outcome.bind_error_iff.1 h with h | ⟨a, st₁, ok₁, h⟩
    · exact first.2 e st' h
    · obtain ⟨prepares, ha⟩ := first.1 a st₁ ok₁
      exact prepares.trans ((hf a ha st₁ (Nat.le_trans hn prepares.next)).2 e st' h)

theorem foldlM {f : β → α → Plan β} {as : List α} (hf : ∀ b, ∀ a ∈ as, Careful n Q (f b a)) :
    ∀ {b : β}, Q b → Careful n Q (as.foldlM f b) := by
  induction as with
  | nil => exact fun hb => pure hb
  | cons a as ih =>
    intro b _
    rw [List.foldlM_cons]
    exact bind (hf b a (List.mem_cons_self ..)) fun _ =>
      ih fun b a ha => hf b a (List.mem_cons_of_mem _ ha)

/-- An error is caught where it has left the state. -/
theorem tryCatch {x : Plan β} {f : PlanError → Plan β} (hx : Careful n Q x)
    (hf : ∀ e, Careful n Q (f e)) : Careful n Q (MonadExcept.tryCatch x f) := by
  intro st hn
  have first := hx st hn
  have run : MonadExcept.tryCatch x f st = match x st with
    | .ok a st₁ => .ok a st₁
    | .error e st₁ => f e st₁ := by
    change EStateM.tryCatch x f st = _
    unfold EStateM.tryCatch
    cases x st <;> rfl
  rw [run]
  cases h : x st with
  | ok a st₁ => exact ⟨fun b st' ok => first.1 b st' (h.trans ok), nofun⟩
  | error e st₁ =>
    have prepares := first.2 e st₁ h
    have later := hf e st₁ (Nat.le_trans hn prepares.next)
    refine ⟨fun b st' ok => ?_, fun e' st' h => prepares.trans (later.2 e' st' h)⟩
    exact (later.1 b st' ok).imp_left prepares.trans

end Careful

variable {mode : Unification} {fns : Functions} {heads : List Relation} {rule : Rule} {n : Nat}

/-- **Compiling a rule** yields a clause of it. -/
theorem compile_careful {delta : Option Nat} (below : ∀ v ∈ rule.occurrences, v.number < n) :
    Careful n (rule.Yields mode delta) (compile mode delta rule) := by
  intro st hn
  have below' : ∀ v ∈ rule.occurrences, v.number < st.next :=
    fun v hv => Nat.lt_of_lt_of_le (below v hv) hn
  refine ⟨fun c st' ok => ?_, fun e st' error => ?_⟩
  · obtain ⟨yields, rises⟩ := compile_yields below' ok
    rw [compile] at ok
    split at ok
    · cases ok
      exact ⟨.of_next rfl rises, yields⟩
    · cases ok
  · have rises := next_le_of_refused error
    rw [compile] at error
    split at error
    · cases error
    · cases error
      exact .of_next rfl rises

/-- **Compiling a recursive clause** yields a variant. -/
theorem deltaClause_careful {pre post : List Literal} {a : Atom}
    (below : ∀ v ∈ rule.occurrences, v.number < n) (body : rule.body = pre ++ .atom a :: post) :
    Careful n (rule.Variant mode pre a post) (deltaClause mode rule pre.length (.atom a)) := by
  rw [deltaClause_eq body]
  have below' : ∀ v ∈ (rule.fronted pre a post).occurrences, v.number < n :=
    fun v hv => below v ((Rule.perm_fronted body).mem_iff.1 hv)
  exact .tryCatch ((compile_careful below').imp fun _ => .front) fun _ =>
    (compile_careful below).imp fun _ => .inPlace

/-- The bound positions of a goal are positions. -/
theorem lt_of_boundPositions {g : Goal} {p : Nat} (hp : p ∈ g.boundPositions) :
    p < g.args.length := by
  obtain ⟨⟨arg, q⟩, harg, rfl⟩ := List.mem_map.1 hp
  have := (List.mem_zipIdx (List.mem_of_mem_filter harg)).2.1
  omega

theorem indexOf_careful {step : Step}
    (goals : ∀ g, step = .lookup g → g.args.length = g.relation.arity) :
    Careful n (fun _ => True) (indexOf step) := by
  cases step with
  | assign | check | destruct => exact .pure trivial
  | lookup g =>
    have register : Careful n (fun _ => True) (register g) := by
      intro st _
      rw [Plan.register]
      cases h : st.store.register g.relation g.boundPositions with
      | ok result =>
        refine ⟨fun _ st' ok => ?_, fun e st' error => by cases error⟩
        cases ok
        have fits : ∀ p ∈ g.boundPositions, p < g.relation.arity :=
          fun p hp => goals g rfl ▸ lt_of_boundPositions hp
        exact ⟨⟨fun built => built.register h, fun filled => filled.register h,
          fun shaped => shaped.register fits h, fun _ _ => Store.holds_register_iff h,
          Nat.le_refl _, .register h⟩, trivial⟩
      | error misfit =>
        constructor
        · intro b st' ok
          cases ok
        · intro e st' error
          cases error
          exact .refl _
    rw [indexOf]
    split
    · exact .pure trivial
    · exact register

theorem slots_careful {head : Head} : ∀ {steps : List Step},
    (∀ g, .lookup g ∈ steps → g.args.length = g.relation.arity) →
      Careful n (fun _ => True) (slots fns head steps)
  | [], _ => .pure trivial
  | _ :: _, goals =>
    .bind (indexOf_careful fun g hg => goals g (hg ▸ List.mem_cons_self ..)) fun _ _ =>
      .bind (slots_careful fun g hg => goals g (List.mem_cons_of_mem _ hg)) fun _ _ => .pure trivial

theorem index_careful {c : Clause} (orderly : c.Orderly) :
    Careful n (fun _ => True) (index fns c) :=
  .bind (slots_careful orderly.goals) fun _ _ => .pure trivial

theorem addVariant_careful {s : Stratum} {l : Literal} {done rest : List Literal}
    (below : ∀ v ∈ rule.occurrences, v.number < n) (body : rule.body = done ++ l :: rest) :
    Careful n (fun _ => True) (addVariant mode fns heads rule s (l, done.length)) := by
  cases l with
  | unify => exact .pure trivial
  | atom a =>
    rw [addVariant]
    split
    · exact .pure trivial
    · exact .bind (deltaClause_careful below body) fun c variant =>
        .bind (index_careful (variant.orderly body)) fun _ _ => .pure trivial

/-- What is in front of a numbered literal and what comes after it. -/
theorem exists_of_mem_zipIdx {ls : List Literal} {li : Literal × Nat} (h : li ∈ ls.zipIdx) :
    ∃ done rest, ls = done ++ li.1 :: rest ∧ li = (li.1, done.length) := by
  obtain ⟨l, i⟩ := li
  obtain ⟨_, hi, hl⟩ := List.mem_zipIdx h
  rw [Nat.zero_add] at hi
  refine ⟨ls.take i, ls.drop (i + 1), ?_, ?_⟩
  · rw [hl]
    simp
  · rw [List.length_take, Nat.min_eq_left (Nat.le_of_lt hi)]

/-- **A rule that is added**, or refused, prepares. -/
theorem addRule_careful {s : Stratum} (below : ∀ v ∈ rule.occurrences, v.number < n) :
    Careful n (fun _ => True) (addRule mode fns heads s rule) := by
  rw [addRule_eq]
  refine .bind (compile_careful below) fun c yields =>
    .bind (index_careful yields.orderly) fun base _ => .foldlM (fun s li hli => ?_) trivial
  obtain ⟨done, rest, body, numbered⟩ := exists_of_mem_zipIdx hli
  rw [numbered]
  exact addVariant_careful below body

end Plan

/-- **Planning prepares the store**, and so does planning that a rule puts an end to. -/
theorem Stratum.plan_careful {mode : Unification} {fns : Functions} {rules : List Rule} {n : Nat}
    (below : ∀ rule ∈ rules, ∀ v ∈ rule.occurrences, v.number < n) :
    Plan.Careful n (fun _ => True) (Stratum.plan mode fns rules) :=
  .foldlM (fun _ rule hr => Plan.addRule_careful (below rule hr)) trivial

theorem Stratum.prepares_of_plan {mode : Unification} {fns : Functions} {rules : List Rule}
    {s : Stratum} {st st' : PlanState}
    (below : ∀ rule ∈ rules, ∀ v ∈ rule.occurrences, v.number < st.next)
    (ok : Stratum.plan mode fns rules st = .ok s st') : st.Prepares st' :=
  ((plan_careful below st (Nat.le_refl _)).1 s st' ok).1

end Datalog
