import Datalog.Meaning.Loops
import Datalog.Proofs.Derivation
import Datalog.Proofs.Store
import Datalog.Proofs.Totality

/-!
# Proofs/Loops — nested loops find every path

Running a body as nested loops lists the bindings that the paths through it end in, and ends
without a fault if the steps do not break.  So it can be computed that clauses derive nothing new
(`Loops.closes`), and then naive rounds stay within the store (`Facts.naive_iterate_of_closes`).
-/

namespace Datalog

namespace Loops

variable {loops : Loops} {b c : Bindings}

/-- What the loops run over, as a scene. -/
def scene (loops : Loops) : Scene where
  functions := loops.functions
  facts := loops.store.Holds
  absent := loops.store.Holds
  seed := loops.seed.map fun tuples t => t ∈ tuples

theorem mem_range_iff {g : Goal} {t : Tuple} : t ∈ loops.range g ↔ loops.scene.Offers g t := by
  rcases g with ⟨r, args, negated, delta⟩
  rcases loops with ⟨fns, store, seed⟩
  cases delta <;> cases seed <;> rfl

/-- A lookup lists the bindings with a tuple that its key agrees with, or keeps them if there must be
none. -/
theorem mem_next_lookup_iff {g : Goal} {bs : List Bindings}
    (ok : loops.next b (.lookup g) = .ok bs) : c ∈ bs ↔ (Step.lookup g).Leads loops.scene b c := by
  obtain ⟨key, hkey, h⟩ := Outcome.except_bind_ok_iff.1 ok
  split at h
  · next hn =>
    cases h
    rw [Step.leads_absent_iff hn, scene, hkey]
    simp only [Except.ok.injEq, exists_eq_left']
    split
    · next hany =>
      obtain ⟨t, ht, agrees⟩ := List.any_eq_true.1 hany
      refine ⟨fun hc => absurd hc List.not_mem_nil, fun h => ?_⟩
      exact absurd (agrees.symm.trans (h.1 t ht)) (Ne.symm Bool.false_ne_true)
    · next hany =>
      rw [List.any_eq_true] at hany
      rw [List.mem_singleton]
      refine (and_iff_right fun t ht => Bool.eq_false_iff.2 fun agrees => hany ?_).symm
      exact ⟨t, ht, agrees⟩
  · next hn =>
    cases h
    rw [Step.leads_found_iff (by simpa using hn)]
    simp only [List.mem_map, List.mem_filter, mem_range_iff]
    refine ⟨fun found => ⟨key, hkey, found⟩, ?_⟩
    rintro ⟨key', hkey', found⟩
    exact Except.ok.inj (hkey'.symm.trans hkey) ▸ found

/-- **One step of the loops**: the bindings listed are those that the step leads to. -/
theorem mem_next_iff {step : Step} {bs : List Bindings} (ok : loops.next b step = .ok bs) :
    c ∈ bs ↔ step.Leads loops.scene b c := by
  cases step with
  | assign v t =>
    obtain ⟨b', hb', h⟩ := Outcome.except_bind_ok_iff.1 ok
    cases h
    rw [List.mem_singleton]
    constructor
    · rintro rfl
      exact .assign hb'
    · rintro (h | _)
      exact Except.ok.inj (h.symm.trans hb')
  | check l r negated =>
    obtain ⟨pass, hpass, h⟩ := Outcome.except_bind_ok_iff.1 ok
    cases h
    constructor
    · intro hc
      cases pass with
      | false => cases hc
      | true =>
        obtain rfl := List.mem_singleton.1 hc
        exact .check hpass
    · rintro (_ | h)
      obtain rfl : pass = true := Except.ok.inj (hpass.symm.trans h)
      exact List.mem_singleton.2 rfl
  | destruct t f ys =>
    obtain ⟨b', hb', h⟩ := Outcome.except_bind_ok_iff.1 ok
    cases h
    rw [Option.mem_toList]
    constructor
    · rintro rfl
      exact .destruct hb'
    · intro h
      cases h with | destruct h =>
      exact Except.ok.inj (hb'.symm.trans h)
  | lookup g => exact mem_next_lookup_iff ok

/-- A step that does not fail can be taken. -/
theorem exists_next {step : Step} (h : ¬step.Fails loops.functions b) :
    ∃ bs, loops.next b step = .ok bs := by
  have value {t : Term} (ht : ¬t.value? b.get? loops.functions = none) :
      ∃ x, t.evaluate b loops.functions = .ok x := by
    obtain ⟨x, hx⟩ := Option.ne_none_iff_exists'.1 ht
    exact ⟨x, Term.evaluate_eq_ok_iff.2 hx⟩
  cases step with
  | assign v t =>
    obtain ⟨x, hx⟩ := value h
    rw [next, Step.performAssign, hx]
    exact ⟨_, rfl⟩
  | check l r negated =>
    obtain ⟨x, hx⟩ := value fun hl => h (.inl hl)
    obtain ⟨y, hy⟩ := value fun hr => h (.inr hr)
    rw [next, Step.performCheck, hx, hy]
    exact ⟨_, rfl⟩
  | destruct t f ys =>
    obtain ⟨x, hx⟩ := value h
    obtain ⟨b', hb'⟩ : ∃ b', Step.performDestruct loops.functions t f ys b = .ok b' := by
      rw [Step.performDestruct, hx]
      cases x with
      | ctor g xs =>
        by_cases hg : g = f ∧ xs.length = ys.length
        · exact ⟨_, if_pos hg⟩
        · exact ⟨_, if_neg hg⟩
      | var | lit | call => exact ⟨_, rfl⟩
    rw [next, hb']
    exact ⟨_, rfl⟩
  | lookup g =>
    obtain ⟨key, hkey⟩ : ∃ key, g.key loops.functions b = .ok key := by
      refine Goal.exists_key_iff.2 fun t ht => Option.ne_none_iff_exists'.1 fun hn => ?_
      exact h ⟨t, ht, hn⟩
    rw [next, hkey]
    by_cases hn : g.negated = true
    · exact ⟨_, if_pos hn⟩
    · exact ⟨_, if_neg hn⟩

/-- **The loops list the ends of all paths.** -/
theorem mem_ways_iff {steps : List Step} {bs : List Bindings} (ok : loops.ways steps b = .ok bs) :
    c ∈ bs ↔ Step.Path loops.scene steps b c := by
  induction steps generalizing b bs with
  | nil =>
    cases ok
    rw [List.mem_singleton]
    exact ⟨by rintro rfl; exact .nil, by rintro ⟨⟩; rfl⟩
  | cons step steps ih =>
    obtain ⟨cs, hcs, ok⟩ := Outcome.except_bind_ok_iff.1 ok
    obtain ⟨ends, hends, ok⟩ := Outcome.except_bind_ok_iff.1 ok
    cases ok
    rw [Outcome.mapM_ok_iff] at hends
    rw [List.mem_flatten]
    constructor
    · rintro ⟨es, hes, hc⟩
      obtain ⟨b', hb', hes⟩ := Outcome.exists_of_forall₂ hends.flip hes
      exact .cons ((mem_next_iff hcs).1 hb') ((ih hes).1 hc)
    · rintro (_ | ⟨first, rest⟩)
      obtain ⟨es, hmem, hes⟩ := Outcome.exists_of_forall₂ hends ((mem_next_iff hcs).2 first)
      exact ⟨es, hmem, (ih hes).2 rest⟩

/-- **Loops that do not break come to an end.** -/
theorem exists_ways {steps : List Step} (h : ¬Step.Breaks loops.scene steps b) :
    ∃ bs, loops.ways steps b = .ok bs := by
  induction steps generalizing b with
  | nil => exact ⟨_, rfl⟩
  | cons step steps ih =>
    obtain ⟨cs, hcs⟩ := exists_next fun fails => h (.here fails)
    obtain ⟨ends, hends⟩ := Outcome.exists_mapM_ok (f := loops.ways steps)
      fun b' (hb' : b' ∈ cs) => ih fun breaks => h (.later ((mem_next_iff hcs).1 hb') breaks)
    rw [ways, hcs]
    change ∃ bs, (do return (← cs.mapM (loops.ways steps)).flatten) = _
    rw [hends]
    exact ⟨_, rfl⟩

/-- **What a clause derives**, as the loops find it. -/
theorem mem_derived_iff {clause : Clause} {tuples : List Tuple}
    (ok : loops.derived clause = .ok tuples) {t : Tuple} :
    t ∈ tuples ↔ clause.Derives loops.scene t := by
  obtain ⟨bs, hbs, ok⟩ := Outcome.except_bind_ok_iff.1 ok
  rw [Outcome.mapM_ok_iff] at ok
  constructor
  · intro ht
    obtain ⟨b, hb, value⟩ := Outcome.exists_of_forall₂ ok.flip ht
    exact ⟨b, (mem_ways_iff hbs).1 hb, value⟩
  · rintro ⟨b, path, value⟩
    obtain ⟨u, hu, value'⟩ := Outcome.exists_of_forall₂ ok ((mem_ways_iff hbs).2 path)
    obtain rfl : u = t := Except.ok.inj (value'.symm.trans value)
    exact hu

theorem exists_derived {clause : Clause} (h : ¬Step.Breaks loops.scene clause.body ∅)
    (hhead : ∀ b, Step.Path loops.scene clause.body ∅ b →
      ∃ t, Tuple.evaluate b loops.functions clause.head.args = .ok t) :
    ∃ tuples, loops.derived clause = .ok tuples := by
  obtain ⟨bs, hbs⟩ := exists_ways h
  obtain ⟨ts, hts⟩ := Outcome.exists_mapM_ok fun b (hb : b ∈ bs) =>
    hhead b ((mem_ways_iff hbs).1 hb)
  exact ⟨ts, Outcome.except_bind_ok_iff.2 ⟨bs, hbs, hts⟩⟩

/-! ### Faults -/

/-- A step that can be taken does not fail. -/
theorem not_fails_of_next {step : Step} {bs : List Bindings} (ok : loops.next b step = .ok bs) :
    ¬step.Fails loops.functions b := by
  have value {t x : Term} (ht : t.evaluate b loops.functions = .ok x) :
      ¬t.value? b.get? loops.functions = none := by
    rw [Term.evaluate_eq_ok_iff.1 ht]
    exact nofun
  cases step with
  | assign v t =>
    obtain ⟨_, hb', _⟩ := Outcome.except_bind_ok_iff.1 ok
    obtain ⟨x, hx, _⟩ := Outcome.except_bind_ok_iff.1 hb'
    exact value hx
  | check l r negated =>
    obtain ⟨_, hpass, _⟩ := Outcome.except_bind_ok_iff.1 ok
    obtain ⟨x, hx, hpass⟩ := Outcome.except_bind_ok_iff.1 hpass
    obtain ⟨y, hy, _⟩ := Outcome.except_bind_ok_iff.1 hpass
    exact not_or.2 ⟨value hx, value hy⟩
  | destruct t f ys =>
    obtain ⟨_, hb', _⟩ := Outcome.except_bind_ok_iff.1 ok
    obtain ⟨x, hx, _⟩ := Outcome.except_bind_ok_iff.1 hb'
    exact value hx
  | lookup g =>
    obtain ⟨key, hkey, _⟩ := Outcome.except_bind_ok_iff.1 ok
    rintro ⟨t, ht, none⟩
    obtain ⟨x, hx⟩ := Goal.exists_key_iff.1 ⟨key, hkey⟩ t ht
    cases hx.symm.trans none

/-- A step that cannot be taken evaluates a term that has no value. -/
theorem exists_of_next_error {step : Step} {e : Abort} (error : loops.next b step = .error e) :
    ∃ t ∈ step.terms, t.evaluate b loops.functions = .error e := by
  cases step with
  | assign v t =>
    rcases Outcome.except_bind_error_iff.1 error with error | ⟨_, _, error⟩
    · rcases Outcome.except_bind_error_iff.1 error with error | ⟨_, _, error⟩
      · exact ⟨t, List.mem_singleton.2 rfl, error⟩
      · cases error
    · cases error
  | check l r negated =>
    rcases Outcome.except_bind_error_iff.1 error with error | ⟨_, _, error⟩
    · rcases Outcome.except_bind_error_iff.1 error with error | ⟨_, _, error⟩
      · exact ⟨l, List.mem_cons_self .., error⟩
      · rcases Outcome.except_bind_error_iff.1 error with error | ⟨_, _, error⟩
        · exact ⟨r, List.mem_cons_of_mem _ (List.mem_singleton.2 rfl), error⟩
        · cases error
    · cases error
  | destruct t f ys =>
    rcases Outcome.except_bind_error_iff.1 error with error | ⟨_, _, error⟩
    · rcases Outcome.except_bind_error_iff.1 error with error | ⟨x, _, error⟩
      · exact ⟨t, List.mem_singleton.2 rfl, error⟩
      · cases x with
        | ctor g xs =>
          dsimp only at error
          split at error <;> cases error
        | var | lit | call => cases error
    · cases error
  | lookup g =>
    rcases Outcome.except_bind_error_iff.1 error with error | ⟨key, _, error⟩
    · obtain ⟨t, ht, error⟩ := Goal.exists_of_key_error error
      exact ⟨t, Step.mem_terms_lookup.2 ht, error⟩
    · split at error <;> cases error

/-- **Loops that come to an end do not break.** -/
theorem not_breaks_of_ways {steps : List Step} {bs : List Bindings}
    (ok : loops.ways steps b = .ok bs) : ¬Step.Breaks loops.scene steps b := by
  intro breaks
  induction breaks generalizing bs with
  | here fails =>
    obtain ⟨_, hcs, _⟩ := Outcome.except_bind_ok_iff.1 ok
    exact not_fails_of_next hcs fails
  | later first _ ih =>
    obtain ⟨cs, hcs, ok⟩ := Outcome.except_bind_ok_iff.1 ok
    obtain ⟨ends, hends, _⟩ := Outcome.except_bind_ok_iff.1 ok
    rw [Outcome.mapM_ok_iff] at hends
    obtain ⟨es, _, hes⟩ := Outcome.exists_of_forall₂ hends ((mem_next_iff hcs).2 first)
    exact ih hes

/-- **Loops that do not come to an end** have come to a step that they cannot take. -/
theorem exists_of_ways_error {steps : List Step} {e : Abort} (error : loops.ways steps b = .error e) :
    ∃ pre step post c, steps = pre ++ step :: post ∧ Step.Path loops.scene pre b c ∧
      loops.next c step = .error e := by
  induction steps generalizing b with
  | nil => cases error
  | cons step steps ih =>
    rcases Outcome.except_bind_error_iff.1 error with here | ⟨cs, hcs, error⟩
    · exact ⟨[], step, steps, b, rfl, .nil, here⟩
    · rcases Outcome.except_bind_error_iff.1 error with error | ⟨_, _, error⟩
      · obtain ⟨c, hc, error⟩ := Outcome.exists_of_mapM_error error
        obtain ⟨pre, step', post, d, rfl, path, error⟩ := ih error
        exact ⟨step :: pre, step', post, d, rfl, .cons ((mem_next_iff hcs).1 hc) path, error⟩
      · cases error

/-- **The loops find all that a clause derives** exactly if it does not fault. -/
theorem exists_derived_iff {clause : Clause} :
    (∃ tuples, loops.derived clause = .ok tuples) ↔ ¬clause.Faults loops.scene := by
  constructor
  · rintro ⟨tuples, ok⟩
    obtain ⟨bs, hbs, ok⟩ := Outcome.except_bind_ok_iff.1 ok
    rw [Outcome.mapM_ok_iff] at ok
    refine not_or.2 ⟨not_breaks_of_ways hbs, ?_⟩
    rintro ⟨b, path, none⟩
    obtain ⟨t, _, value⟩ := Outcome.exists_of_forall₂ ok ((mem_ways_iff hbs).2 path)
    exact none t value
  · intro calm
    obtain ⟨unbroken, values⟩ := not_or.1 calm
    refine exists_derived unbroken fun b path => ?_
    by_contra none
    exact values ⟨b, path, fun t value => none ⟨t, value⟩⟩

/-- **The clauses derive nothing new**, as far as the loops can tell; where the head has no
values, no tuple is derived. -/
def closes (loops : Loops) (clauses : List Clause) : Bool :=
  clauses.all fun c =>
    match loops.ways c.body ∅ with
    | .ok ends => ends.all fun b =>
      match Tuple.evaluate b loops.functions c.head.args with
      | .ok tuple => loops.store.contains c.head.relation tuple
      | .error _ => true
    | .error _ => false

theorem holds_of_closes {clauses : List Clause} (h : loops.closes clauses = true) {c : Clause}
    (hc : c ∈ clauses) {tuple : Tuple} (hd : c.Derives loops.scene tuple) :
    loops.store.Holds c.head.relation tuple := by
  obtain ⟨b, path, value⟩ := hd
  have h := List.all_eq_true.1 h c hc
  cases ok : loops.ways c.body ∅ with
  | error e =>
    simp only [ok] at h
    cases h
  | ok ends =>
    simp only [ok] at h
    have value : Tuple.evaluate b loops.functions c.head.args = .ok tuple := value
    have h := List.all_eq_true.1 h b ((mem_ways_iff ok).2 path)
    simp only [value] at h
    exact Store.contains_iff.1 h

end Loops

/-- **Naive rounds stay within a store to which the clauses add nothing**, if they ask for no
absence. -/
theorem Facts.naive_iterate_of_closes {fns : Functions} {store : Store} {clauses : List Clause}
    {start : Facts} {n : Nat} (closes : Loops.closes ⟨fns, store, none⟩ clauses = true)
    (positive : ∀ c ∈ clauses, ∀ g, .lookup g ∈ c.body → g.negated = false)
    (within : start.Within store.Holds) : ((naive fns clauses)^[n] start).Within store.Holds := by
  induction n with
  | zero => exact within
  | succ n ih =>
    rw [Function.iterate_succ_apply']
    rintro r t (h | ⟨c, hc, rfl, hd⟩)
    · exact ih r t h
    · refine Loops.holds_of_closes closes hc (hd.imp (Scene.over_serves (.refl fns) ih ?_))
      intro g hg hn
      rw [positive c hc g hg] at hn
      cases hn

end Datalog
