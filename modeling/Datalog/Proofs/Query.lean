import Datalog.Database.Query
import Datalog.Meaning.Pattern
import Datalog.Proofs.Order
import Datalog.Proofs.Filling
import Datalog.Proofs.Substitution

/-!
# Proofs/Query — a query finds the instances of its pattern

Matching has one law (`Term.matchWith?_iff`): the bindings it ends with are kept by exactly those
substitutions that kept the ones it began with and make the pattern the term.  Read for the bindings
it ends with this is soundness, read for any other substitution it is completeness, and uniqueness
as well.  Each variable is bound where it first occurs (`Term.keys_matchWith?`).  So the answers to
a query are its instances, once each and in order (`Store.Filled.query_exact`).
-/

namespace Datalog

/-! ## Finite maps -/

theorem Assoc.mem_keys_iff {α : Type u} {β : Type v} [DecidableEq α] {m : Assoc α β} {k : α} :
    k ∈ m.keys ↔ ∃ v, m.get? k = some v := by
  simp only [Assoc.get?_eq_some_iff]
  constructor
  · intro hk
    obtain ⟨e, he, rfl⟩ := List.mem_map.1 hk
    exact ⟨e.2, he⟩
  · rintro ⟨v, hv⟩
    exact List.mem_map.2 ⟨_, hv, rfl⟩

/-- **A map is known by its keys, in order, and what they hold.** -/
theorem Assoc.eq_of_keys {α : Type u} {β : Type v} [DecidableEq α] {m m' : Assoc α β}
    (keys : m.keys = m'.keys) (same : ∀ k v, m.get? k = some v → m'.get? k = some v) : m = m' := by
  have listed (m : Assoc α β) : m.entries.map (fun e => (e.1, some e.2)) =
      m.keys.map fun k => (k, m.get? k) := by
    rw [Assoc.keys, List.map_map]
    exact List.map_congr_left fun e he => congrArg _ (Assoc.get?_eq_some_iff.2 he).symm
  have values : m.keys.map (fun k => (k, m.get? k)) = m'.keys.map fun k => (k, m'.get? k) := by
    rw [← keys]
    refine List.map_congr_left fun k hk => congrArg _ ?_
    obtain ⟨e, he, rfl⟩ := List.mem_map.1 hk
    have held : m.get? e.1 = some e.2 := Assoc.get?_eq_some_iff.2 he
    rw [held, same e.1 e.2 held]
  have injective : Function.Injective fun e : α × β => (e.1, some e.2) := fun e e' h =>
    Prod.ext (Prod.mk.inj h).1 (Option.some.inj (Prod.mk.inj h).2)
  refine Assoc.ext (List.map_injective_iff.2 injective ?_)
  rw [listed, listed, values]

/-! ## Matching -/

/-- **The substitution keeps the bindings**: it makes of each bound variable the term it is bound
to. -/
def Bindings.KeptBy (b σ : Bindings) : Prop :=
  ∀ v x, b.get? v = some x → (Term.var v).substitute σ = x

theorem Bindings.keptBy_empty (σ : Bindings) : KeptBy ∅ σ := by
  intro v x hx
  cases hx

theorem Bindings.keptBy_self (b : Bindings) : b.KeptBy b := by
  intro v x hx
  rw [Term.substitute, hx]
  rfl

namespace Term

variable {b b' σ : Bindings}

theorem substitute_var_iff {v : Var} {x t : Term} (held : b.get? v = some x) (kept : b.KeptBy σ) :
    (var v).substitute σ = t ↔ x = t := by
  rw [kept v x held]

/-- A new binding is kept by what makes the variable its term. -/
theorem keptBy_put_iff {v : Var} {t : Term} (new : b.get? v = none) :
    Bindings.KeptBy (b.put v t) σ ↔ b.KeptBy σ ∧ (var v).substitute σ = t := by
  constructor
  · intro kept
    refine ⟨fun w x hx => kept w x ?_, kept v t (by rw [Assoc.get?_put, if_pos rfl])⟩
    rw [Assoc.get?_put, if_neg]
    · exact hx
    · rintro rfl
      rw [new] at hx
      cases hx
  · rintro ⟨kept, hv⟩ w x hx
    rw [Assoc.get?_put] at hx
    split at hx
    · next h => exact h ▸ hv.trans (Option.some.inj hx)
    · exact kept w x hx

/-- **Matching a list of patterns**, if each of them is matched as it should be. -/
theorem matchAll?_iff_of {ps : List Term}
    (ih : ∀ p ∈ ps, ∀ (t : Term) (b : Bindings),
      (∃ b', matchWith? b p t = some b' ∧ b'.KeptBy σ) ↔ b.KeptBy σ ∧ p.substitute σ = t) :
    ∀ {ts : List Term} {b : Bindings}, ps.length = ts.length →
      ((∃ b', matchAll? b ps ts = some b' ∧ b'.KeptBy σ) ↔
        b.KeptBy σ ∧ ps.map (substitute σ) = ts) := by
  induction ps with
  | nil =>
    intro ts b hlen
    obtain rfl := List.length_eq_zero_iff.1 hlen.symm
    simp [matchAll?]
  | cons p ps ihps =>
    intro ts b hlen
    cases ts with
    | nil => cases hlen
    | cons t ts =>
      have rest {b : Bindings} :=
        ihps (b := b) (fun q hq => ih q (List.mem_cons_of_mem _ hq)) (Nat.succ.inj hlen)
      rw [List.map_cons, List.cons.injEq, ← and_assoc, ← ih p (List.mem_cons_self ..) t b,
        matchAll?]
      simp only [Option.bind_eq_some_iff]
      constructor
      · rintro ⟨b₂, ⟨b₁, first, later⟩, kept⟩
        obtain ⟨kept₁, hts⟩ := rest.1 ⟨b₂, later, kept⟩
        exact ⟨⟨b₁, first, kept₁⟩, hts⟩
      · rintro ⟨⟨b₁, first, kept₁⟩, hts⟩
        obtain ⟨b₂, later, kept⟩ := rest.2 ⟨kept₁, hts⟩
        exact ⟨b₂, ⟨b₁, first, later⟩, kept⟩

theorem matchWith?_lit (b : Bindings) (v : Value) (t : Term) :
    matchWith? b (lit v) t = if lit v = t then some b else none := by
  cases t <;> rw [matchWith?] <;> exact nofun

theorem isCallFree_of_mem {f : String} {args : List Term} (h : (ctor f args).isCallFree = true) :
    ∀ t ∈ args, t.isCallFree = true := by
  rw [isCallFree, functions, functionsOf_eq_flatMap, List.isEmpty_iff, List.flatMap_eq_nil_iff] at h
  exact fun t ht => List.isEmpty_iff.2 (h t ht)

/-- **The law of matching**: what keeps the bindings it ends with is what keeps the bindings it
began with and makes the pattern the term. -/
theorem matchWith?_iff {p : Term} (free : p.isCallFree = true) : ∀ (t : Term) (b : Bindings),
    (∃ b', matchWith? b p t = some b' ∧ b'.KeptBy σ) ↔ b.KeptBy σ ∧ p.substitute σ = t := by
  induction p with
  | var v =>
    intro t b
    rw [matchWith?]
    cases held : b.get? v with
    | none => simpa using keptBy_put_iff held
    | some x =>
      dsimp only
      constructor
      · rintro ⟨b', same, kept⟩
        split at same
        · next h =>
          cases same
          exact ⟨kept, (substitute_var_iff held kept).2 h⟩
        · cases same
      · rintro ⟨kept, made⟩
        exact ⟨b, if_pos ((substitute_var_iff held kept).1 made), kept⟩
  | lit v =>
    intro t b
    rw [matchWith?_lit, substitute]
    constructor
    · rintro ⟨b', same, kept⟩
      split at same
      · next h =>
        cases same
        exact ⟨kept, h⟩
      · cases same
    · rintro ⟨kept, made⟩
      exact ⟨b, if_pos made, kept⟩
  | ctor f ps ih =>
    intro t b
    have args := isCallFree_of_mem free
    rw [substitute, substituteAll_eq_map]
    cases t with
    | ctor g ts =>
      rw [matchWith?, ctor.injEq]
      split
      · next h =>
        rw [matchAll?_iff_of (fun p hp => ih p hp (args p hp)) h.2]
        simp [h.1]
      · next h =>
        constructor
        · rintro ⟨_, ⟨⟩, _⟩
        · rintro ⟨_, same, rfl⟩
          exact (h ⟨same, (List.length_map _).symm⟩).elim
    | var w | lit w | call g ts =>
      simp [matchWith?]
  | call f args => cases free

/-! ### Keys -/

/-- The variables, those met first in front, after some that are known. -/
def met (known vs : List Var) : List Var :=
  vs.foldl (fun known v => if v ∈ known then known else known ++ [v]) known

theorem met_eq (vs : List Var) : ∀ known : List Var,
    met known vs = known ++ (vs.filter (· ∉ known)).eraseDups := by
  induction vs with
  | nil => exact fun known => (List.append_nil known).symm
  | cons v vs ih =>
    intro known
    rw [met, List.foldl_cons]
    split
    · next old => rw [← met, ih, List.filter_cons_of_neg (by simpa using old)]
    · next new =>
      have others : vs.filter (· ∉ known ++ [v]) =
          (vs.filter (· ∉ known)).filter fun w => !w == v := by
        rw [List.filter_filter]
        refine List.filter_congr fun w _ => ?_
        by_cases h : w = v <;> simp [h]
      rw [← met, ih, List.filter_cons_of_pos (by simpa using new), List.eraseDups_cons, others,
        List.append_assoc, List.singleton_append]

theorem met_append (known vs ws : List Var) : met known (vs ++ ws) = met (met known vs) ws :=
  List.foldl_append

theorem keys_matchAll?_of {ps : List Term} (ih : ∀ p ∈ ps, ∀ (t : Term) (b b' : Bindings),
      matchWith? b p t = some b' → b'.keys = met b.keys p.occurrences) :
    ∀ {ts : List Term} {b b' : Bindings}, ps.length = ts.length → matchAll? b ps ts = some b' →
      b'.keys = met b.keys (ps.flatMap occurrences) := by
  induction ps with
  | nil =>
    intro ts b b' _ h
    rw [matchAll?.eq_def] at h
    cases h
    rfl
  | cons p ps ihps =>
    intro ts b b' hlen h
    cases ts with
    | nil => cases hlen
    | cons t ts =>
      rw [matchAll?] at h
      obtain ⟨b₁, first, later⟩ := Option.bind_eq_some_iff.1 h
      rw [List.flatMap_cons, met_append, ← ih p (List.mem_cons_self ..) t b b₁ first]
      exact ihps (fun q hq => ih q (List.mem_cons_of_mem _ hq)) (Nat.succ.inj hlen) later

/-- **Matching binds each variable where it first occurs.** -/
theorem keys_matchWith? {p : Term} (free : p.isCallFree = true) : ∀ (t : Term) (b b' : Bindings),
    matchWith? b p t = some b' → b'.keys = met b.keys p.occurrences := by
  induction p with
  | var v =>
    intro t b b' h
    rw [matchWith?] at h
    change b'.keys = if v ∈ b.keys then b.keys else b.keys ++ [v]
    cases held : b.get? v with
    | some x =>
      rw [held] at h
      dsimp only at h
      split at h
      · cases h
        exact (if_pos (Assoc.mem_keys_iff.2 ⟨x, held⟩)).symm
      · cases h
    | none =>
      rw [held] at h
      cases h
      exact Assoc.keys_put b v t
  | lit v =>
    intro t b b' h
    rw [matchWith?_lit] at h
    split at h
    · cases h
      rfl
    · cases h
  | ctor f ps ih =>
    intro t b b' h
    have args := isCallFree_of_mem free
    cases t with
    | ctor g ts =>
      rw [matchWith?] at h
      split at h
      · next same =>
        rw [occurrences, occurrencesOf_eq_flatMap]
        exact keys_matchAll?_of (fun p hp => ih p hp (args p hp)) same.2 h
      · cases h
    | var w | lit w | call g ts => simp [matchWith?] at h
  | call f args => cases free

end Term

/-! ## Patterns -/

/-- Each entry that has an image beside its image. -/
theorem forall₂_filterMap {α : Type u} {β : Type v} (f : α → Option β) : ∀ as : List α,
    List.Forall₂ (fun a b => f a = some b) (as.filter fun a => (f a).isSome) (as.filterMap f)
  | [] => .nil
  | a :: as => by
    cases h : f a with
    | none =>
      rw [List.filterMap_cons_none h, List.filter_cons_of_neg (by simp [h])]
      exact forall₂_filterMap f as
    | some b =>
      rw [List.filterMap_cons_some h, List.filter_cons_of_pos (by simp [h])]
      exact .cons h (forall₂_filterMap f as)

namespace Atom

variable {pattern : Atom} {t : Tuple} {b b' : Bindings}

/-- **Matching finds the answer**, if the pattern has one with the tuple. -/
theorem matchAll?_eq_some_iff (free : ∀ p ∈ pattern.args, p.isCallFree = true)
    (hlen : pattern.args.length = t.length) :
    Term.matchAll? ∅ pattern.args t = some b ↔ pattern.Answer t b := by
  have law {σ : Bindings} := Term.matchAll?_iff_of (σ := σ) (b := ∅)
    (fun p hp => Term.matchWith?_iff (free p hp)) hlen
  have found {b : Bindings} (h : Term.matchAll? ∅ pattern.args t = some b) :
      pattern.Answer t b := by
    refine ⟨?_, (law.1 ⟨b, h, b.keptBy_self⟩).2⟩
    rw [Term.keys_matchAll?_of (fun p hp => Term.keys_matchWith? (free p hp)) hlen h, Term.met_eq,
      occurrences]
    simp [Assoc.keys, EmptyCollection.emptyCollection, Assoc.empty]
  refine ⟨found, fun answer => ?_⟩
  obtain ⟨b', h, kept⟩ := law.2 ⟨b.keptBy_empty, answer.tuple⟩
  have keys : b'.keys = b.keys := (found h).keys.trans answer.keys.symm
  rw [h, Assoc.eq_of_keys keys fun v x hx => ?_]
  obtain ⟨y, hy⟩ := Assoc.mem_keys_iff.1 (keys ▸ Assoc.mem_keys_iff.2 ⟨x, hx⟩)
  have made := kept v x hx
  rw [Term.substitute, hy] at made
  exact hy.trans (congrArg some made)

/-- The terms of an answer are unique. -/
theorem Answer.unique (free : ∀ p ∈ pattern.args, p.isCallFree = true) (h : pattern.Answer t b)
    (h' : pattern.Answer t b') : b' = b := by
  have hlen : pattern.args.length = t.length := h.tuple ▸ (List.length_map _).symm
  rw [← matchAll?_eq_some_iff free hlen] at h h'
  exact Option.some.inj (h'.symm.trans h)

/-- **An instance has an answer.** -/
theorem instance_iff (free : ∀ p ∈ pattern.args, p.isCallFree = true) :
    pattern.Instance t ↔ ∃ b, pattern.Answer t b := by
  refine ⟨?_, fun ⟨b, answer⟩ => ⟨b, answer.tuple⟩⟩
  rintro ⟨σ, made⟩
  have hlen : pattern.args.length = t.length := made ▸ (List.length_map _).symm
  obtain ⟨b, h, _⟩ := (Term.matchAll?_iff_of (fun p hp => Term.matchWith?_iff (free p hp)) hlen).2
    ⟨σ.keptBy_empty, made⟩
  exact ⟨b, (matchAll?_eq_some_iff free hlen).1 h⟩

/-- An instance has the pattern's ground arguments at their positions. -/
theorem Instance.agrees (h : pattern.Instance t) :
    Key.agrees (pattern.args.map fun p => if p.isGround then some p else none) t = true := by
  obtain ⟨σ, rfl⟩ := h
  rw [Key.agrees_iff]
  intro i x y hx hy
  rw [List.getElem?_map, Option.map_eq_some_iff] at hx hy
  obtain ⟨p, hp, hx⟩ := hx
  obtain ⟨q, hq, rfl⟩ := hy
  obtain rfl : p = q := Option.some.inj (hp.symm.trans hq)
  split at hx
  · next ground =>
    rw [Term.substitute_of_isGround ground]
    exact (Option.some.inj hx).symm
  · cases hx

end Atom

/-! ## Stores -/

namespace Store

variable {s : Store} {r : Relation} {t : Tuple}

/-- **A query answers with the instances of its pattern**: in increasing order and once each, every
answer binding the pattern's variables, in the order in which they first occur, to the only terms
that make the pattern the tuple. -/
theorem Filled.query_exact (filled : s.Filled) {pattern : Atom} (arity : pattern.HasArity)
    (free : ∀ p ∈ pattern.args, p.isCallFree = true)
    (fits : ∀ t, s.Holds pattern.relation t → t.length = pattern.relation.arity) :
    ∃ found : List Tuple, found.Pairwise (fun t u => Tuple.compare t u = .lt) ∧
      (∀ t, t ∈ found ↔ s.Holds pattern.relation t ∧ pattern.Instance t) ∧
      List.Forall₂ (fun t b => pattern.Answer t b ∧ ∀ b', pattern.Answer t b' → b' = b) found
        (s.query pattern) := by
  let answer := Term.matchAll? ∅ pattern.args
  let found := Tuple.sort (s.lookup pattern.relation
    (pattern.args.map fun p => if p.isGround then some p else none) none)
  have length {t : Tuple} (ht : s.Holds pattern.relation t) : pattern.args.length = t.length :=
    arity.trans (fits t ht).symm
  have stored {t : Tuple} : t ∈ found ↔ s.Holds pattern.relation t ∧
      Key.agrees (pattern.args.map fun p => if p.isGround then some p else none) t = true :=
    (Tuple.sort_perm _).mem_iff.trans List.mem_filter
  refine ⟨found.filter fun t => (answer t).isSome, ?_, fun t => ?_, ?_⟩
  · exact (Tuple.sort_strict ((filled.distinct _).filter _)).filter _
  · rw [List.mem_filter, stored, Option.isSome_iff_exists, Atom.instance_iff free]
    constructor
    · rintro ⟨⟨ht, _⟩, b, hb⟩
      exact ⟨ht, b, (Atom.matchAll?_eq_some_iff free (length ht)).1 hb⟩
    · rintro ⟨ht, b, hb⟩
      refine ⟨⟨ht, ((Atom.instance_iff free).2 ⟨b, hb⟩).agrees⟩, b, ?_⟩
      exact (Atom.matchAll?_eq_some_iff free (length ht)).2 hb
  · have held : ∀ t ∈ found.filter fun t => (answer t).isSome, s.Holds pattern.relation t :=
      fun t ht => (stored.1 (List.mem_filter.1 ht).1).1
    refine ((List.forall₂_and_left ..).2 ⟨held, forall₂_filterMap answer found⟩).imp ?_
    rintro t b ⟨ht, hb⟩
    have unique := (Atom.matchAll?_eq_some_iff free (length ht)).1 hb
    exact ⟨unique, fun b' => unique.unique free⟩

end Store

/-! ## Examples -/

namespace Gifts

/-- Who gave what. -/
def gave : Relation := ⟨"gave", 2, .extensional⟩

/-- The pattern `gave(x, back(y, x))`: what somebody gave is something given back to them. -/
def returned : Atom where
  relation := gave
  args := [.var ⟨"x", 0⟩, .ctor "back" [.var ⟨"y", 0⟩, .var ⟨"x", 0⟩]]

/-- Three gifts, the second of which goes back to somebody else. -/
def store : Store := Store.addAll ∅
  [(gave, [.int 4, .ctor "back" [.int 5, .int 4]]), (gave, [.int 1, .ctor "back" [.int 2, .int 3]]),
    (gave, [.int 1, .ctor "back" [.int 2, .int 1]])]

theorem length_eq_two {t : Tuple} (ht : store.Holds gave t) : t.length = 2 := by
  rw [store, Store.holds_addAll_iff] at ht
  rcases ht with ht | ht
  · cases ht
  · simp only [List.mem_cons, Prod.mk.injEq, true_and, List.not_mem_nil, or_false] at ht
    obtain rfl | rfl | rfl := ht <;> rfl

/-- The two instances are found, the smaller one first. -/
theorem returned_exactly : store.Filled ∧ returned.HasArity ∧
    (∀ p ∈ returned.args, p.isCallFree = true) ∧ (∀ t, store.Holds gave t → t.length = 2) ∧
    store.query returned = [.ofList [(⟨"x", 0⟩, .int 1), (⟨"y", 0⟩, .int 2)],
      .ofList [(⟨"x", 0⟩, .int 4), (⟨"y", 0⟩, .int 5)]] ∧
    ∃ found : List Tuple, found.Pairwise (fun t u => Tuple.compare t u = .lt) ∧
      (∀ t, t ∈ found ↔ store.Holds gave t ∧ returned.Instance t) ∧
      List.Forall₂ (fun t b => returned.Answer t b ∧ ∀ b', returned.Answer t b' → b' = b) found
        (store.query returned) := by
  have filled : store.Filled := .add (.add (.add .empty))
  have arity : returned.HasArity := rfl
  have free : ∀ p ∈ returned.args, p.isCallFree = true := by decide
  exact ⟨filled, arity, free, fun _ => length_eq_two, by cbv,
    filled.query_exact arity free fun _ => length_eq_two⟩

/-- A gift that lacks its second half. -/
def torn : Store := (Store.add ∅ gave [.int 1]).1

/-- The pattern `gave(x, y)`. -/
def anything : Atom where
  relation := gave
  args := [.var ⟨"x", 0⟩, .var ⟨"y", 0⟩]

/-- **A tuple that is too short answers** for a pattern of which it is no instance. -/
theorem answered_without_instance : torn.Filled ∧
    (∀ r t, torn.Holds r t → ∀ u ∈ t, u.isValue = true) ∧ anything.HasArity ∧
    (∀ p ∈ anything.args, p.isCallFree = true) ∧
    torn.query anything = [.ofList [(⟨"x", 0⟩, .int 1)]] ∧
    ∀ t, torn.Holds gave t → ¬anything.Instance t := by
  have only {r : Relation} {t : Tuple} (ht : torn.Holds r t) : t = [.int 1] :=
    ((Store.holds_add_iff.1 ht).resolve_left nofun).2
  refine ⟨.add .empty, fun r t ht u hu => ?_, rfl, by decide, by cbv, fun t ht => ?_⟩
  · obtain rfl := only ht
    obtain rfl := List.mem_singleton.1 hu
    rfl
  · obtain rfl := only ht
    rintro ⟨σ, made⟩
    exact absurd (congrArg List.length made) (by simp [anything])

end Gifts

end Datalog
