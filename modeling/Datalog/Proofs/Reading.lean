import Datalog.Database.Query
import Datalog.Proofs.History
import Datalog.Proofs.Order

/-!
# Proofs/Reading — what is read depends on the facts alone

Two stores that hold the same facts answer every question alike, whatever was added to them or
registered in whichever order (`Store.Built.reads_alike`).  A store keeps each fact once, so the
tuples of a relation are determined up to their order, and sorting hides the order
(`Store.ReadsAlike.of_perm`).
-/

namespace Datalog

namespace Store

variable {s s' : Store} {r : Relation}

/-- **The facts one by one**, each with its relation. -/
def pairs (s : Store) : List (Relation × Tuple) :=
  s.entries.flatMap fun e => e.2.tuples.map (Prod.mk e.1)

theorem extent_of_mem {e : Relation × Extent} (he : e ∈ s.entries) : s.extent e.1 = e.2 := by
  rw [extent, Assoc.get?_eq_some_iff.2 he]
  rfl

/-- A fact is listed as often as its relation has it. -/
theorem count_pairs (s : Store) (r : Relation) (t : Tuple) :
    s.pairs.count (r, t) = (s.extent r).tuples.count t := by
  have own (e : Relation × Extent) : (e.2.tuples.map (Prod.mk e.1)).filter (·.1 = r) =
      if e.1 = r then e.2.tuples.map (Prod.mk e.1) else [] := by
    split
    · next hr => simp [List.filter_map, Function.comp_def, hr]
    · next hr => simp [List.filter_map, Function.comp_def, hr]
  have listed : s.pairs.filter (·.1 = r) = (s.extent r).tuples.map (Prod.mk r) := by
    rw [pairs, List.filter_flatMap, List.flatMap_congr fun e _ => own e, extent]
    cases hget : s.get? r with
    | some e => exact Assoc.flatMap_entries s.nodup (Assoc.get?_eq_some_iff.1 hget)
    | none =>
      refine List.flatMap_eq_nil_iff.2 fun e he => if_neg fun hr => ?_
      cases hget.symm.trans (Assoc.get?_eq_some_iff.2 (hr ▸ he : (r, e.2) ∈ s.entries))
  rw [← List.count_filter (p := (·.1 = r)) (decide_eq_true rfl), listed]
  exact List.count_map_of_injective _ _ (Prod.mk_right_injective r) t

/-! ## Reading as listing facts -/

theorem total_eq : s.total = s.pairs.length := by
  rw [total, pairs, List.length_flatMap, List.length_flatMap]
  simp

/-- Going through some of the relations is going through the facts of these. -/
theorem tuples_of_keys {p : Relation → Bool} {es : List (Relation × Extent)}
    (sub : es ⊆ s.entries) :
    ((es.map Prod.fst).filter p).flatMap (fun r => (s.extent r).tuples) =
      ((es.flatMap fun e => e.2.tuples.map (Prod.mk e.1)).filter fun f => p f.1).map Prod.snd := by
  induction es with
  | nil => rfl
  | cons e es ih =>
    obtain ⟨he, sub⟩ := List.cons_subset.1 sub
    rw [List.map_cons, List.filter_cons, List.flatMap_cons, List.filter_append, List.map_append,
      ← ih sub]
    split
    · next chosen =>
      rw [List.flatMap_cons, extent_of_mem he]
      simp [chosen, List.filter_map, Function.comp_def]
    · next other => simp [other, List.filter_map, Function.comp_def]

/-- **The facts of every relation with a name** are those of the pairs that have it. -/
theorem factsNamed_eq (name : String) : s.factsNamed name =
    Tuple.sort ((s.pairs.filter fun f => f.1.name == name).map Prod.snd) := by
  refine Tuple.sort_congr ?_
  have listed : ((s.relations.filter (·.name == name)).flatMap s.facts).Perm
      ((s.keys.filter (·.name == name)).flatMap fun r => (s.extent r).tuples) :=
    (((List.mergeSort_perm ..).filter _).flatMap_right _).trans
      (List.Perm.flatMap_left _ fun r _ => Tuple.sort_perm _)
  refine listed.trans (.of_eq ?_)
  exact tuples_of_keys (List.Subset.refl _)

/-! ## Two stores -/

/-- **Two stores read alike**: no question about the facts tells them apart. -/
structure ReadsAlike (s s' : Store) : Prop where
  facts : ∀ r, s.facts r = s'.facts r
  contains : ∀ r t, s.contains r t = s'.contains r t
  count : ∀ r, s.count r = s'.count r
  total : s.total = s'.total
  factsNamed : ∀ name, s.factsNamed name = s'.factsNamed name
  query : ∀ pattern, s.query pattern = s'.query pattern
  ask : ∀ pattern, s.ask pattern = s'.ask pattern

/-- **The same tuples up to order** in each relation. -/
theorem ReadsAlike.of_perm (tuples : ∀ r, (s.extent r).tuples.Perm (s'.extent r).tuples) :
    s.ReadsAlike s' := by
  have pairs : s.pairs.Perm s'.pairs := List.perm_iff_count.2 fun f => by
    rw [count_pairs, count_pairs, (tuples f.1).count_eq]
  have query : ∀ pattern, s.query pattern = s'.query pattern := fun pattern =>
    congrArg (List.filterMap _) (Tuple.sort_congr ((tuples pattern.relation).filter _))
  exact {
    facts := fun r => Tuple.sort_congr (tuples r)
    contains := fun r t => by
      rw [Bool.eq_iff_iff, contains_iff, contains_iff]
      exact (tuples r).mem_iff
    count := fun r => (tuples r).length_eq
    total := by rw [total_eq, total_eq, pairs.length_eq]
    factsNamed := fun name => by
      rw [factsNamed_eq, factsNamed_eq, Tuple.sort_congr ((pairs.filter _).map _)]
    query
    ask := fun pattern => by rw [Store.ask, Store.ask, query] }

/-- The same facts, each stored once, are the same lists up to order. -/
theorem Represented.same_readings (h : s.Represented) (h' : s'.Represented)
    (same : ∀ r t, s.Holds r t ↔ s'.Holds r t) : s.ReadsAlike s' :=
  .of_perm fun r => (List.perm_ext_iff_of_nodup (h r).distinct (h' r).distinct).2 (same r)

/-- **What is read depends on the facts alone**: after any two sequences of additions and
registrations that lead to the same facts every question has the same answer.  The facts of a
relation come strictly increasing, in an order that is total and decides equality. -/
theorem Built.reads_alike (built : s.Built) (built' : s'.Built)
    (same : ∀ r t, s.Holds r t ↔ s'.Holds r t) :
    s.ReadsAlike s' ∧ (∀ r, (s.facts r).Pairwise fun t u => Tuple.compare t u = .lt) ∧
      (Std.TransCmp Var.compare ∧ Std.LawfulEqCmp Var.compare) ∧
      (Std.TransCmp Value.compare ∧ Std.LawfulEqCmp Value.compare) ∧
      (Std.TransCmp Term.compare ∧ Std.LawfulEqCmp Term.compare) ∧
      (Std.TransCmp Tuple.compare ∧ Std.LawfulEqCmp Tuple.compare) := by
  refine ⟨built.represented.same_readings built'.represented same, fun r => ?_, ?_⟩
  · exact Tuple.sort_strict (built.represented r).distinct
  · exact ⟨⟨inferInstance, inferInstance⟩, ⟨inferInstance, inferInstance⟩,
      ⟨inferInstance, inferInstance⟩, ⟨inferInstance, inferInstance⟩⟩

end Store

/-! ## An example -/

namespace Edges

/-- The edges of `store`, in another order and without an index. -/
def turned : Store :=
  Store.addAll ∅ [(edge, [.int 1, .int 4]), (edge, [.int 2, .int 3]), (edge, [.int 1, .int 2]),
    (edge, [.int 2, .int 3])]

theorem turned_built : turned.Built :=
  .add (.add (.add (.add .empty (Store.shaped_empty.fits rfl)) (Store.shaped_empty.add.fits rfl))
    (Store.shaped_empty.add.add.fits rfl)) (Store.shaped_empty.add.add.add.fits rfl)

theorem holds_iff_turned (r : Relation) (t : Tuple) : store.Holds r t ↔ turned.Holds r t := by
  rw [store]
  split
  · next s n ok =>
    rw [Store.holds_add_iff, Store.holds_add_iff, Store.holds_register_iff ok,
      Store.holds_add_iff, Store.holds_add_iff, turned, Store.holds_addAll_iff]
    simp only [List.mem_cons, Prod.mk.injEq, List.not_mem_nil]
    tauto
  · next ok => cases ok

/-- One store has an index and the other has none, and they read alike. -/
theorem read_alike : store.indexCount edge = 1 ∧ turned.indexCount edge = 0 ∧
    store.ReadsAlike turned ∧
    turned.facts edge = [[.int 1, .int 2], [.int 1, .int 4], [.int 2, .int 3]] :=
  ⟨by cbv, by cbv, (Store.Built.reads_alike built turned_built holds_iff_turned).1, by cbv⟩

end Edges

end Datalog
