import Datalog.Meaning.Closure
import Datalog.Meaning.Rule
import Datalog.Proofs.Compile.Calls
import Datalog.Proofs.Loops

/-!
# Proofs/Compile/Meaning — a clause derives what its rule says

Over a store of values, and with functions that give values for values, what the literals say about
a total assignment is what they say as written.  The one difference is in the single variables of
a positive atom: a goal passes over them, while a rule assigns them the value that is stored.  Since
nothing else mentions them, they can be assigned afterwards, literal by literal (`exists_holds`).
-/

namespace Datalog

open Compile (Single)

variable {mode : Unification} {rule : Rule} {fns : Functions} {σ σ' : Assignment}

/-! ## Literals as written -/

/-- All of an argument list has values. -/
theorem Term.exists_values {ts : List Term} {env : Env} (total : fns.TotalOn (callsOf ts))
    (henv : ∀ v ∈ occurrencesOf ts, ∃ x, env v = some x ∧ x.isValue = true) :
    ∃ xs, List.Forall₂ (fun t x => t.value? env fns = some x) ts xs := by
  induction ts with
  | nil => exact ⟨[], .nil⟩
  | cons t ts ih =>
    obtain ⟨x, hx, _⟩ := exists_value (fun f n h => total f n (List.mem_append_left _ h))
      fun v hv => henv v (List.mem_append_left _ hv)
    obtain ⟨xs, hxs⟩ := ih (fun f n h => total f n (List.mem_append_right _ h))
      fun v hv => henv v (List.mem_append_right _ hv)
    exact ⟨x :: xs, .cons hx hxs⟩

/-- **To agree with a tuple but for singletons** is to pass at every position. -/
theorem Atom.meets_iff {a : Atom} {values tuple : Tuple}
    (hvalues : List.Forall₂ (fun t x => t.value? (.total σ) fns = some x) a.args values)
    (hlen : a.args.length = tuple.length) :
    a.Meets fns σ rule.isSingleton tuple ↔ a.Matches (Single rule) fns (.total σ) tuple := by
  have hval {i : Nat} {arg value : Term} (ha : a.args[i]? = some arg)
      (hv : values[i]? = some value) : arg.value? (.total σ) fns = some value :=
    (Outcome.forall₂_iff_getElem?.1 hvalues).2 i arg value ha hv
  constructor
  · rintro ⟨values', h', hmeets⟩
    obtain rfl : values' = values := Except.ok.inj (h'.symm.trans (Term.valuesIn_eq_ok_iff.2 hvalues))
    refine Outcome.forall₂_iff_getElem?.2 ⟨hlen, fun i arg stored ha hs => ?_⟩
    obtain ⟨value, hv⟩ : ∃ value, values'[i]? = some value := by
      have hi := (List.getElem?_eq_some_iff.1 ha).1
      rw [hvalues.length_eq] at hi
      exact ⟨_, List.getElem?_eq_getElem hi⟩
    exact (hmeets i arg value stored ha hv hs).imp_right fun e : value = stored => e ▸ hval ha hv
  · intro h
    refine ⟨values, Term.valuesIn_eq_ok_iff.2 hvalues, fun i arg value stored ha hv hs => ?_⟩
    refine ((Outcome.forall₂_iff_getElem?.1 h).2 i arg stored ha hs).imp_right fun e => ?_
    exact Option.some.inj ((hval ha hv).symm.trans e)

/-- **What a literal says, but for the single variables of a positive atom.** -/
def Literal.Loosely (fns : Functions) (facts : Facts) (rule : Rule) (σ : Assignment) :
    Literal → Prop
  | .atom a => if a.negated then (Literal.atom a).Holds fns facts rule.isSingleton σ
    else ∃ tuple, facts a.relation tuple ∧ a.Matches (Single rule) fns (.total σ) tuple
  | .unify l r negated => (Literal.unify l r negated).Holds fns facts rule.isSingleton σ

/-- A literal depends on its variables. -/
theorem Literal.holds_congr {facts : Facts} {single : Var → Bool} {l : Literal}
    (h : ∀ v ∈ l.occurrences, σ v = σ' v) :
    l.Holds fns facts single σ ↔ l.Holds fns facts single σ' := by
  have total {v : Var} (hv : v ∈ l.occurrences) : Env.total σ v = Env.total σ' v :=
    congrArg some (h v hv)
  cases l with
  | atom a =>
    have values : Term.valuesIn (.total σ) fns a.args = Term.valuesIn (.total σ') fns a.args :=
      Term.valuesIn_congr fun v hv => total (by
        rwa [Term.occurrencesOf_eq_flatMap] at hv)
    simp only [Holds, Atom.Meets, Atom.ValuesAre, values]
  | unify l r negated =>
    have left : l.valueIn (.total σ) fns = l.valueIn (.total σ') fns :=
      Term.valueIn_congr fun v hv => total (List.mem_append_left _ hv)
    have right : r.valueIn (.total σ) fns = r.valueIn (.total σ') fns :=
      Term.valueIn_congr fun v hv => total (List.mem_append_right _ hv)
    simp only [Holds, left, right]

theorem Literal.loosely_congr {facts : Facts} {l : Literal}
    (h : ∀ v ∈ l.occurrences, σ v = σ' v) :
    l.Loosely fns facts rule σ ↔ l.Loosely fns facts rule σ' := by
  cases l with
  | atom a =>
    have passes {t x : Term} (ht : t ∈ a.args) : t.Passes (Single rule) fns (.total σ) x ↔
        t.Passes (Single rule) fns (.total σ') x := by
      have value : t.value? (.total σ) fns = t.value? (.total σ') fns :=
        Term.value?_congr fun v hv => congrArg some (h v (List.mem_flatMap.2 ⟨t, ht, hv⟩))
      rw [Term.Passes, Term.Passes, value]
    have matches_iff {tuple : Tuple} : a.Matches (Single rule) fns (.total σ) tuple ↔
        a.Matches (Single rule) fns (.total σ') tuple := by
      rw [Atom.Matches, Atom.Matches, Outcome.forall₂_iff_getElem?, Outcome.forall₂_iff_getElem?]
      refine and_congr_right fun _ => ⟨fun hp i t x ht hx => ?_, fun hp i t x ht hx => ?_⟩
      · exact (passes (List.mem_iff_getElem?.2 ⟨i, ht⟩)).1 (hp i t x ht hx)
      · exact (passes (List.mem_iff_getElem?.2 ⟨i, ht⟩)).2 (hp i t x ht hx)
    rw [Loosely, Loosely, holds_congr h]
    simp only [matches_iff]
  | unify l r negated =>
    rw [Loosely, Loosely]
    exact holds_congr h

/-! ## Assigning single variables -/

/-- The single variables that a tuple has to be passed over at. -/
def Literal.Loose (rule : Rule) (v : Var) (l : Literal) : Prop :=
  Single rule v ∧ ∃ a, l = .atom a ∧ .var v ∈ a.args

/-- **Single variables among the arguments** can be assigned what is stored at their positions. -/
theorem exists_values_of_passes {single : Var → Prop} {ts : List Term} {tuple : Tuple}
    (h : List.Forall₂ (Term.Passes single fns (.total σ)) ts tuple)
    (once : Once single (Term.occurrencesOf ts)) (hσ : ∀ v, (σ v).isValue = true)
    (ground : ∀ x ∈ tuple, x.isValue = true) :
    ∃ σ' : Assignment, (∀ v, ¬(single v ∧ .var v ∈ ts) → σ' v = σ v) ∧
      (∀ v, (σ' v).isValue = true) ∧
      List.Forall₂ (fun t x => t.value? (.total σ') fns = some x) ts tuple := by
  induction h with
  | nil => exact ⟨σ, fun _ _ => rfl, hσ, .nil⟩
  | @cons t x ts tuple ht _ ih =>
    have once' : Once single (Term.occurrencesOf ts) := once.of_count_le fun v => by
      rw [Term.occurrencesOf, List.count_append]
      exact Nat.le_add_left ..
    obtain ⟨σ', same, values, hts⟩ := ih once' fun y hy => ground y (List.mem_cons_of_mem _ hy)
    have apart {v : Var} (hv : v ∈ t.occurrences) (hs : single v) : v ∉ Term.occurrencesOf ts :=
      fun hm => once.not_single hv hm hs
    rcases ht with ⟨v, rfl, hv⟩ | ht
    · refine ⟨fun w => if w = v then x else σ' w, fun w hw => ?_, fun w => ?_, .cons ?_ ?_⟩
      · have hne : w ≠ v := fun e => hw ⟨e ▸ hv, e ▸ List.mem_cons_self ..⟩
        change (if w = v then x else σ' w) = σ w
        rw [if_neg hne]
        exact same w fun hm => hw ⟨hm.1, List.mem_cons_of_mem _ hm.2⟩
      · dsimp only
        split
        · exact ground x (List.mem_cons_self ..)
        · exact values w
      · rw [Term.value?_var, Env.total, if_pos rfl]
      · rw [← Term.values?_eq_some_iff] at hts ⊢
        rw [← hts]
        refine Term.values?_congr fun w hw => congrArg some (if_neg ?_)
        rintro rfl
        exact apart (List.mem_singleton.2 rfl) hv hw
    · refine ⟨σ', fun w hw => same w fun hm => hw ⟨hm.1, List.mem_cons_of_mem _ hm.2⟩, values,
        .cons ?_ hts⟩
      rw [← ht]
      refine Term.value?_congr fun w hw => congrArg some (same w fun hm => ?_)
      exact apart hw hm.1 (Term.mem_occurrencesOf.2 ⟨_, hm.2, List.mem_singleton.2 rfl⟩)

/-- **Single variables can be assigned what is stored**, literal by literal, since nothing else
mentions them. -/
theorem exists_holds {facts : Facts} {ls : List Literal}
    (once : Once (Single rule) (ls.flatMap Literal.occurrences))
    (h : ∀ l ∈ ls, l.Loosely fns facts rule σ) (hσ : ∀ v, (σ v).isValue = true)
    (ground : ∀ r t, facts r t → ∀ x ∈ t, x.isValue = true) :
    ∃ σ' : Assignment, (∀ v, (∀ l ∈ ls, ¬l.Loose rule v) → σ' v = σ v) ∧
      (∀ v, (σ' v).isValue = true) ∧ ∀ l ∈ ls, l.Holds fns facts rule.isSingleton σ' := by
  induction ls with
  | nil => exact ⟨σ, fun _ _ => rfl, hσ, nofun⟩
  | cons l ls ih =>
    rw [List.flatMap_cons] at once
    have once' : Once (Single rule) (ls.flatMap Literal.occurrences) := once.of_count_le fun v => by
      rw [List.count_append]
      exact Nat.le_add_left ..
    have loose_mem {v : Var} {l : Literal} (hv : l.Loose rule v) : v ∈ l.occurrences := by
      obtain ⟨_, a, rfl, hv⟩ := hv
      exact List.mem_flatMap.2 ⟨_, hv, List.mem_singleton.2 rfl⟩
    obtain ⟨σ₁, same, values, hls⟩ := ih once' fun m hm => h m (List.mem_cons_of_mem _ hm)
    -- what was assigned for the other literals does not touch this one
    have loosely : l.Loosely fns facts rule σ₁ := by
      refine (Literal.loosely_congr fun v hv => same v fun m hm hloose => ?_).2
        (h l (List.mem_cons_self ..))
      exact once.not_single hv (List.mem_flatMap.2 ⟨m, hm, loose_mem hloose⟩) hloose.1
    obtain ⟨σ₂, same₂, values₂, hl⟩ : ∃ σ₂ : Assignment, (∀ v, ¬l.Loose rule v → σ₂ v = σ₁ v) ∧
        (∀ v, (σ₂ v).isValue = true) ∧ l.Holds fns facts rule.isSingleton σ₂ := by
      cases l with
      | unify l r negated => exact ⟨σ₁, fun _ _ => rfl, values, loosely⟩
      | atom a =>
        rw [Literal.Loosely] at loosely
        split at loosely
        · exact ⟨σ₁, fun _ _ => rfl, values, loosely⟩
        · next hn =>
          obtain ⟨tuple, ht, hmatches⟩ := loosely
          have once'' : Once (Single rule) (Term.occurrencesOf a.args) :=
            once.of_count_le fun v => by
              rw [List.count_append, Term.occurrencesOf_eq_flatMap]
              exact Nat.le_add_right ..
          obtain ⟨σ₂, same₂, values₂, hargs⟩ :=
            exists_values_of_passes hmatches once'' values (ground a.relation tuple ht)
          refine ⟨σ₂, fun v hv => same₂ v fun hm => hv ⟨hm.1, a, rfl, hm.2⟩, values₂, ?_⟩
          rw [Literal.Holds, if_neg hn]
          exact ⟨tuple, Term.valuesIn_eq_ok_iff.2 hargs, ht⟩
    refine ⟨σ₂, fun v hv => ?_, values₂, List.forall_mem_cons.2 ⟨hl, fun m hm => ?_⟩⟩
    · rw [same₂ v (hv l (List.mem_cons_self ..)), same v fun m hm => hv m (List.mem_cons_of_mem _ hm)]
    · refine (Literal.holds_congr fun v hv => same₂ v fun hloose => ?_).2 (hls m hm)
      exact once.not_single (loose_mem hloose) (List.mem_flatMap.2 ⟨m, hm, hv⟩) hloose.1

/-! ## Literals as compiled -/

section

variable {F : Facts} {l : Literal} {seen : List Var} {delta : Bool}

/-- **What a literal comes to** is what it says, but for single variables. -/
theorem Literal.loosely_of_fits (total : fns.TotalOn l.calls) (hσ : ∀ v, (σ v).isValue = true)
    (ground : ∀ r t, F r t → t.length = r.arity) (arity : ∀ a, l = .atom a → a.HasArity)
    (fits : l.Fits mode (Single rule) (.over fns F F) seen delta true (.total σ)) :
    l.Loosely fns F rule σ := by
  have values {vs : List Var} : ∀ v ∈ vs, ∃ x, Env.total σ v = some x ∧ x.isValue = true :=
    fun v _ => ⟨σ v, rfl, hσ v⟩
  cases l with
  | atom a =>
    rw [Literal.Fits, Atom.Fits] at fits
    rw [Loosely]
    split at fits
    · next hn =>
      rw [if_pos hn, Holds, if_pos hn]
      intro tuple ht hmeets
      obtain ⟨xs, hxs⟩ := Term.exists_values total values
      exact fits.2 tuple ht ((Atom.meets_iff hxs ((arity a rfl).trans (ground _ _ ht).symm)).1 hmeets)
    · next hn =>
      rw [if_neg hn]
      obtain ⟨tuple, ht, hmatches⟩ := fits
      exact ⟨tuple, Scene.gives_over_iff.1 ht, hmatches⟩
  | unify l r negated =>
    cases negated with
    | false =>
      obtain ⟨_, known, fits, _⟩ := fits
      obtain ⟨x, hx, _⟩ := Term.exists_value (t := l)
        (fun f n h => total f n (List.mem_append_left _ h)) values
      have hy := fits.value?_eq.symm.trans hx
      exact ⟨x, x, Term.value?_eq_some_iff.1 hx, Term.value?_eq_some_iff.1 hy, rfl⟩
    | true =>
      obtain ⟨x, y, hx, hy, hne⟩ := fits
      exact ⟨x, y, Term.value?_eq_some_iff.1 hx, Term.value?_eq_some_iff.1 hy, hne⟩

/-- **Whatever satisfies a literal** fits it as compiled. -/
theorem Literal.fits_of_holds (total : fns.TotalOn l.calls)
    (hσ : ∀ v ∈ l.occurrences, (σ v).isValue = true)
    (ground : ∀ r t, F r t → t.length = r.arity) (arity : ∀ a, l = .atom a → a.HasArity)
    (holds : l.Holds fns F rule.isSingleton σ) :
    l.Fits mode (Single rule) (.over fns F F) seen delta true (.total σ) := by
  cases l with
  | atom a =>
    rw [Holds] at holds
    rw [Literal.Fits, Atom.Fits]
    split at holds
    · next hn =>
      rw [if_pos hn]
      have values : ∀ v ∈ Term.occurrencesOf a.args, ∃ x, Env.total σ v = some x ∧
          x.isValue = true :=
        fun v hv => ⟨σ v, rfl, hσ v (by rwa [Term.occurrencesOf_eq_flatMap] at hv)⟩
      obtain ⟨xs, hxs⟩ := Term.exists_values total values
      refine ⟨fun t ht => ?_, fun tuple ht hmatches => ?_⟩
      · obtain ⟨x, _, hx⟩ := Outcome.exists_of_forall₂ hxs ht
        exact ⟨x, .inr hx⟩
      · refine holds tuple ht ((Atom.meets_iff hxs ?_).2 hmatches)
        exact (arity a rfl).trans (ground _ _ ht).symm
    · next hn =>
      rw [if_neg hn]
      obtain ⟨tuple, values, ht⟩ := holds
      exact ⟨tuple, Scene.gives_over_iff.2 ht,
        (Term.valuesIn_eq_ok_iff.1 values).imp fun _ _ h => .inr h⟩
  | unify l r negated =>
    obtain ⟨x, y, hx, hy, hxy⟩ := holds
    rw [← Term.value?_eq_some_iff] at hx hy
    cases negated with
    | false =>
      obtain rfl : x = y := hxy
      exact ⟨mode, seen, Term.Alike.fits ⟨hx.trans hy.symm, .inl (Option.isSome_iff_exists.2 ⟨x, hx⟩)⟩,
        fun _ => ⟨rfl, List.Subset.refl _⟩⟩
    | true => exact ⟨x, y, hx, hy, hxy⟩

end

/-! ## Rules -/

/-- A literal of the body keeps to the calls of the rule. -/
theorem Rule.calls_subset {l : Literal} (hl : l ∈ rule.body) : l.calls ⊆ rule.calls :=
  fun _ h => List.mem_append_right _ (List.mem_flatMap.2 ⟨l, hl, h⟩)

theorem Functions.TotalOn.mono {C D : List (String × Nat)} (h : fns.TotalOn D) (hs : C ⊆ D) :
    fns.TotalOn C :=
  fun f n hf => h f n (hs hf)

/-- The facts have the arity of every atom. -/
theorem Rule.measures_over {F : Facts} (ground : ∀ r t, F r t → t.length = r.arity) :
    (Scene.over fns F F).MeasuresAll (rule.marked none) :=
  fun _ _ _ => ⟨fun t ht => ground _ t (Scene.gives_over_iff.1 ht), fun t ht => ground _ t ht⟩

/-- Along the paths of a clause values are bound. -/
theorem Rule.valued_of_path {next : Nat} {c : Clause} {d : Draft} {F : Facts} {b : Bindings}
    (compiled : rule.Compiled mode none next c d) (callsIn : d.CallsIn rule.calls)
    (ground : ∀ r t, F r t → t.length = r.arity ∧ ∀ x ∈ t, x.isValue = true)
    (total : fns.TotalOn rule.calls) (path : Step.Path (.over fns F F) c.body ∅ b) :
    b.Valued (Step.written c.body) := by
  have h := path.valued (fun g t ht => (ground g.relation t ?_).2)
    (fun step hs t ht => total.mono (callsIn.steps step (compiled.body ▸ hs) t ht))
    compiled.inOrder (compiled.suited (measures_over fun r t ht => (ground r t ht).1)) nofun
  · rwa [List.nil_append] at h
  · exact Scene.gives_over_iff.1 (Scene.offers_iff.1 ht)

/-- **Every known variable has a value** along the paths of a clause. -/
theorem Rule.exists_env {next : Nat} {c : Clause} {d : Draft} {F : Facts} {b : Bindings}
    (compiled : rule.Compiled mode none next c d) (callsIn : d.CallsIn rule.calls)
    (ground : ∀ r t, F r t → t.length = r.arity ∧ ∀ x ∈ t, x.isValue = true)
    (total : fns.TotalOn rule.calls) (path : Step.Path (.over fns F F) c.body ∅ b) (v : Var) :
    ∃ x : Term, x.isValue = true ∧ (d.Knows v → d.env fns b v = some x) := by
  have values : b.Valued d.written := by
    have h := valued_of_path compiled callsIn ground total path
    rwa [compiled.body] at h
  by_cases hk : d.Knows v
  · rcases hk with hw | ⟨t, ht⟩
    · obtain ⟨x, hx, hval⟩ := values v hw
      exact ⟨x, hval, fun _ => (compiled.sound.env_eq hw).trans hx⟩
    · obtain ⟨x, hx, hval⟩ := Term.exists_value (total.mono (callsIn.inlined v t ht))
        fun w hw => values w (compiled.sound.inlined_written v t ht hw)
      refine ⟨x, hval, fun _ => ?_⟩
      rw [Draft.env, Env.through, ht]
      exact hx
  · exact ⟨.bool false, rfl, fun h => absurd h hk⟩

/-- **What the clause derives the rule derives**, over facts that are values. -/
theorem Rule.derives_of_clause {next : Nat} {c : Clause} {d : Draft} {F : Facts} {tuple : Tuple}
    (compiled : rule.Compiled mode none next c d) (callsIn : d.CallsIn rule.calls)
    (ground : ∀ r t, F r t → t.length = r.arity ∧ ∀ x ∈ t, x.isValue = true)
    (total : fns.TotalOn rule.calls) (h : c.Derives (.over fns F F) tuple) :
    rule.Derives fns F tuple := by
  obtain ⟨b, path, value⟩ := h
  obtain ⟨σ, hσ⟩ := Classical.skolem.1 (exists_env compiled callsIn ground total path)
  have hm : d.Matches fns next b (.total σ) := fun v _ hk => (hσ v).2 hk
  have fits := compiled.allFit (measures_over fun r t ht => (ground r t ht).1) path hm
  have once : Once (Single rule) (rule.body.flatMap Literal.occurrences) := by
    intro v hs
    have hcount : rule.occurrences.count v = 1 := by simpa [Single, isSingleton] using hs
    rw [occurrences, List.count_append] at hcount
    omega
  obtain ⟨σ', same, values, holds⟩ := exists_holds once (fun l hl => by
    obtain ⟨e, he, rfl⟩ := exists_marked none hl
    obtain ⟨seen, hfit⟩ := Literal.exists_fits fits he
    exact Literal.loosely_of_fits (total.mono (calls_subset hl)) (fun v => (hσ v).1)
      (fun r t ht => (ground r t ht).1) (fun a e => compiled.arities a (e ▸ hl)) hfit)
    (fun v => (hσ v).1) fun r t ht => (ground r t ht).2
  refine ⟨σ', fun v _ => values v, holds, Term.valuesIn_eq_ok_iff.2 ?_⟩
  change Tuple.evaluate b fns c.head.args = .ok tuple at value
  have same_values : Term.values? (.total σ') fns rule.head.args =
      Term.values? (.total σ) fns rule.head.args := by
    refine Term.values?_congr fun v hv => ?_
    rw [Term.occurrencesOf_eq_flatMap] at hv
    refine congrArg some (same v fun l hl hloose => ?_)
    obtain ⟨hs, a, rfl, hva⟩ := hloose
    refine not_single_of_mem hv (List.mem_flatMap.2 ⟨_, hl, ?_⟩) hs
    exact List.mem_flatMap.2 ⟨_, hva, List.mem_singleton.2 rfl⟩
  rwa [Tuple.evaluate_eq_ok_iff, compiled.head_values hm, ← same_values,
    Term.values?_eq_some_iff] at value

/-- **What the rule derives the clause derives.** -/
theorem Rule.clause_derives {next : Nat} {c : Clause} {d : Draft} {F : Facts} {tuple : Tuple}
    (compiled : rule.Compiled mode none next c d)
    (ground : ∀ r t, F r t → t.length = r.arity) (total : fns.TotalOn rule.calls)
    (h : rule.Derives fns F tuple) : c.Derives (.over fns F F) tuple := by
  obtain ⟨σ, values, holds, head⟩ := h
  have fits : Literal.AllFit mode (Single rule) (.over fns F F) true (.total σ) []
      (rule.marked none) := by
    refine Literal.allFit_of_forall fun e he seen => ?_
    have hl := mem_body_of_marked he
    refine Literal.fits_of_holds (total.mono (calls_subset hl)) (fun v hv => values v ?_) ground
      (fun a e => compiled.arities a (e ▸ hl)) (holds e.1 hl)
    exact List.mem_append_right _ (List.mem_flatMap.2 ⟨e.1, hl, hv⟩)
  rcases compiled.path_or_breaks (measures_over ground) fits with ⟨b, path, hm⟩ | ⟨_, hs⟩
  · refine ⟨b, path, ?_⟩
    change Tuple.evaluate b fns c.head.args = .ok tuple
    have hm : d.Matches fns next b (.total σ) := hm
    rw [Tuple.evaluate_eq_ok_iff, compiled.head_values hm, Term.values?_eq_some_iff]
    exact Term.valuesIn_eq_ok_iff.1 head
  · cases hs

/-- **Compilation preserves the meaning of a rule.**  Over a store of values of the right arity,
and with functions that give values for values, the nested loops of the clause end without a
fault, and what they find is what the rule derives. -/
theorem Rule.derived_iff_derives {next next' : Nat} {c : Clause} {store : Store}
    (below : ∀ v ∈ rule.occurrences, v.number < next)
    (ok : rule.compile mode none next = .ok c next')
    (ground : ∀ r t, store.Holds r t → t.length = r.arity ∧ ∀ x ∈ t, x.isValue = true)
    (total : fns.TotalOn rule.calls) :
    ∃ tuples, (Loops.mk fns store none).derived c = .ok tuples ∧
      ∀ t, t ∈ tuples ↔ rule.Derives fns store.Holds t := by
  obtain ⟨d, ok⟩ := clause_of_compile ok
  have compiled := compiled_of_clause below ok
  obtain ⟨⟨callsIn, _⟩, headCalls⟩ := from_of_clause ok
  have arity : ∀ r t, store.Holds r t → t.length = r.arity := fun r t ht => (ground r t ht).1
  have scene : (Loops.mk fns store none).scene = .over fns store.Holds store.Holds := rfl
  have runs : ¬Step.Breaks (.over fns store.Holds store.Holds) c.body ∅ :=
    Step.not_breaks
      (fun g t ht => (ground g.relation t (Scene.gives_over_iff.1 (Scene.offers_iff.1 ht))).2)
      (fun step hs t ht => total.mono (callsIn.steps step (compiled.body ▸ hs) t ht))
      compiled.inOrder (compiled.suited (measures_over arity)) nofun
  have heads : ∀ b, Step.Path (.over fns store.Holds store.Holds) c.body ∅ b →
      ∃ t, Tuple.evaluate b fns c.head.args = .ok t := by
    intro b path
    have values := valued_of_path compiled callsIn ground total path
    obtain ⟨xs, hxs⟩ : ∃ xs, List.Forall₂ (fun t x => t.value? b.get? fns = some x) c.head.args xs :=
      Term.exists_values (total.mono fun x hx => by
        obtain ⟨t, ht, hx⟩ := Term.mem_callsOf.1 hx
        exact headCalls t ht hx) fun v hv => values v (compiled.head_reads hv)
    exact ⟨xs, Tuple.evaluate_eq_ok_iff.2 (Term.values?_eq_some_iff.2 hxs)⟩
  obtain ⟨tuples, htuples⟩ : ∃ tuples, (Loops.mk fns store none).derived c = .ok tuples :=
    Loops.exists_derived runs heads
  refine ⟨tuples, htuples, fun t => ?_⟩
  rw [Loops.mem_derived_iff htuples, scene]
  exact ⟨derives_of_clause compiled callsIn ground total, clause_derives compiled arity total⟩

/-! ## An example -/

namespace Linked

/-- `linked(z) :- edge(x, n(y)), !blocked(x, w), x != y, z = pair(x, y).` -/
def pairing : Rule :=
  let x : Term := .var ⟨"x", 0⟩
  let y : Term := .var ⟨"y", 0⟩
  let z : Term := .var ⟨"z", 0⟩
  { head := { relation := ⟨"linked", 1, .bottomUp⟩, args := [z] }
    body := [
      .atom { relation := ⟨"edge", 2, .extensional⟩, args := [x, .ctor "n" [y]] },
      .atom { relation := ⟨"blocked", 2, .extensional⟩, args := [x, .var ⟨"w", 0⟩], negated := true },
      .unify x y true,
      .unify z (.call "pair" [x, y]) false] }

/-- Pairing is the only function. -/
def functions : Functions :=
  .ofList [("pair", { arity := 2, run := fun args => .ok (.ctor "pair" args) })]

/-- Three edges, one of them from a node to itself and one from a blocked node. -/
def store : Store :=
  .ofList [
    (⟨"edge", 2, .extensional⟩, { tuples := [[.int 1, .ctor "n" [.int 2]],
      [.int 2, .ctor "n" [.int 2]], [.int 3, .ctor "n" [.int 1]]] }),
    (⟨"blocked", 2, .extensional⟩, { tuples := [[.int 3, .int 0]] })]

theorem ground (r : Relation) (t : Tuple) (h : store.Holds r t) :
    t.length = r.arity ∧ ∀ x ∈ t, x.isValue = true := by
  have all : ∀ e ∈ store.entries, ∀ t ∈ e.2.tuples,
      t.length = e.1.arity ∧ ∀ x ∈ t, x.isValue = true := by decide
  rw [Store.Holds, Store.extent] at h
  cases hr : store.get? r with
  | none =>
    rw [hr] at h
    cases h
  | some e =>
    rw [hr] at h
    exact all (r, e) (Assoc.get?_eq_some_iff.1 hr) t h

theorem total : functions.TotalOn pairing.calls := by
  intro f n h xs hn hx
  obtain ⟨rfl, rfl⟩ := Prod.mk.inj (List.mem_singleton.1 (h : (f, n) ∈ [("pair", 2)]))
  refine ⟨.ctor "pair" xs, ?_, Term.isValue_ctor_iff.2 hx⟩
  exact if_pos hn.symm

/-- The rule derives the edge between two nodes that is not blocked, and nothing else. -/
theorem derives_iff : ∃ clause next tuples, pairing.compile .inline none 1 = .ok clause next ∧
    (Loops.mk functions store none).derived clause = .ok tuples ∧
    tuples = [[.ctor "pair" [.int 1, .int 2]]] ∧
    ∀ t, t ∈ tuples ↔ pairing.Derives functions store.Holds t := by
  obtain ⟨clause, next, ok, found⟩ : ∃ clause next, pairing.compile .inline none 1 = .ok clause next ∧
      (Loops.mk functions store none).derived clause = .ok [[.ctor "pair" [.int 1, .int 2]]] :=
    ⟨_, _, rfl, rfl⟩
  obtain ⟨tuples, h, iff⟩ := Rule.derived_iff_derives (by decide) ok ground total
  obtain rfl := Except.ok.inj (found.symm.trans h)
  exact ⟨clause, next, _, ok, h, rfl, iff⟩

end Linked
end Datalog
