import Datalog.Meaning.Import
import Datalog.Proofs.Order
import Datalog.Proofs.Store

/-!
# Proofs/Export — what an export keeps

A term can be read back from its export (`Json.term?_json`), so different terms never export alike.
Under a name a store exports one relation, the **widest** of those with the name, and this one
whole: its facts can be read back, and those of the narrower relations cannot
(`Store.exported_exactly`).
-/

namespace Datalog

/-! ## Terms -/

namespace Json

theorem value?_json (v : Value) : v.json.value? = some v := by
  cases v with
  | int i => rw [Value.json, value?, Int64.ofInt_toInt]
  | str s => rfl
  | bool b => rfl

theorem terms?_jsons {ts : List Term} (ih : ∀ t ∈ ts, t.json.term? = some t) :
    terms? (Tuple.jsons ts) = some ts := by
  induction ts with
  | nil => rw [Tuple.jsons, terms?]
  | cons t ts ihs =>
    rw [Tuple.jsons, terms?, ih t (List.mem_cons_self ..),
      ihs fun u hu => ih u (List.mem_cons_of_mem _ hu)]
    rfl

/-- **A term is read back from its export.** -/
theorem term?_json (t : Term) : t.json.term? = some t := by
  induction t with
  | var v =>
    rw [Term.json, Var.json, term?]
    rfl
  | lit v =>
    rw [Term.json, term?, value?_json]
    rfl
  | ctor f args ih =>
    rw [Term.json, term?, terms?_jsons ih]
    rfl
  | call f args ih =>
    rw [Term.json, term?, terms?_jsons ih]
    rfl

theorem tuple?_json (t : Tuple) : t.json.tuple? = some t :=
  terms?_jsons fun t _ => term?_json t

end Json

theorem Term.json_injective : Function.Injective Term.json := fun s t h => by
  have read := Json.term?_json s
  rw [h, Json.term?_json] at read
  exact (Option.some.inj read).symm

theorem Tuple.json_injective : Function.Injective Tuple.json := fun s t h => by
  have read := Json.tuple?_json s
  rw [h, Json.tuple?_json] at read
  exact (Option.some.inj read).symm

/-! ## Relations -/

namespace Store

variable {s : Store} {r : Relation} {name : String}

/-- **No two relations share both name and arity.** -/
def Apart (s : Store) : Prop :=
  ∀ r ∈ s.keys, ∀ r' ∈ s.keys, r.name = r'.name → r.arity = r'.arity → r = r'

/-- **No relation with the name has more arguments.** -/
structure Widest (s : Store) (r : Relation) : Prop where
  mem : r ∈ s.keys
  arity_le : ∀ r' ∈ s.keys, r'.name = r.name → r'.arity ≤ r.arity

theorem mem_relations_iff : r ∈ s.relations ↔ r ∈ s.keys :=
  List.mem_mergeSort

/-- Of the relations with a name one is the widest. -/
theorem exists_widest (h : r ∈ s.keys) : ∃ w, s.Widest w ∧ w.name = r.name := by
  have mem {r' : Relation} : r' ∈ s.keys.filter (·.name = r.name) ↔
      r' ∈ s.keys ∧ r'.name = r.name := by
    rw [List.mem_filter, decide_eq_true_eq]
  cases most : (s.keys.filter (·.name = r.name)).argmax Relation.arity with
  | none =>
    have none := List.argmax_eq_none.1 most ▸ mem.2 ⟨h, rfl⟩
    cases none
  | some w =>
    obtain ⟨hw, named⟩ := mem.1 (List.argmax_mem most)
    exact ⟨w, ⟨hw, fun r' hr' same =>
      List.le_of_mem_argmax (mem.2 ⟨hr', same.trans named⟩) most⟩, named⟩

/-- The relations are in order. -/
theorem pairwise_relations (s : Store) :
    s.relations.Pairwise fun r r' => (r.compareByName r').isLE := by
  have trans : Std.TransCmp Relation.compareByName :=
    inferInstanceAs (Std.TransCmp (compareLex (compareOn Relation.name) (compareOn Relation.arity)))
  refine List.pairwise_mergeSort (fun r r' r'' => Std.TransCmp.isLE_trans) (fun r r' => ?_) s.keys
  have swap : r'.compareByName r = (r.compareByName r').swap := Std.OrientedCmp.eq_swap
  rw [swap]
  cases r.compareByName r' <;> rfl

theorem arity_le_of_isLE {r r' : Relation} (le : (r.compareByName r').isLE)
    (same : r'.name = r.name) : r.arity ≤ r'.arity := by
  have names : compare r.name r'.name = .eq := (compare_eq_iff _ _).2 same.symm
  rw [Relation.compareByName, names] at le
  exact Nat.isLE_compare.1 le

/-- No relation that comes after the widest one has its name. -/
theorem Widest.name_ne (h : s.Widest r) (apart : s.Apart) {pre post : List Relation}
    (split : s.relations = pre ++ r :: post) {r' : Relation} (hr' : r' ∈ post) :
    r'.name ≠ r.name := by
  intro same
  have order := s.pairwise_relations
  have distinct : s.relations.Nodup := (List.mergeSort_perm ..).nodup_iff.2 s.nodup
  rw [split] at order distinct
  have le := (List.pairwise_cons.1 (List.pairwise_append.1 order).2.1).1 r' hr'
  have mem : r' ∈ s.keys := mem_relations_iff.1 (split ▸ by simp [hr'])
  have arity := Nat.le_antisymm (arity_le_of_isLE le same) (h.arity_le r' mem same)
  obtain rfl := apart r h.mem r' mem same.symm arity
  exact (List.nodup_cons.1 (List.nodup_append.1 distinct).2.1).1 hr'

/-- **The widest relation is the one exported.** -/
theorem Widest.get?_exported (h : s.Widest r) (apart : s.Apart) :
    s.exported.get? r.name = some (s.facts r) := by
  obtain ⟨pre, post, split⟩ := List.append_of_mem (mem_relations_iff.2 h.mem)
  rw [exported, split, List.map_append, List.map_cons]
  refine Assoc.get?_ofList_append fun later => ?_
  simp only [List.map_map, List.mem_map, Function.comp_apply] at later
  obtain ⟨r', hr', same⟩ := later
  exact h.name_ne apart split hr' same

theorem field?_json (s : Store) (name : String) : s.json.field? name =
    (s.exported.get? name).map fun tuples => .arr (tuples.map Tuple.json) :=
  Assoc.find_map (fun tuples : List Tuple => Json.arr (tuples.map Tuple.json)) name
    s.exported.entries

/-- The tuples under a name are read back from the export. -/
theorem tuples?_json (s : Store) (name : String) : s.json.tuples? name = s.exported.get? name := by
  rw [Json.tuples?, field?_json]
  cases s.exported.get? name with
  | none => rfl
  | some tuples =>
    have read : Json.tuple? ∘ Tuple.json = pure := funext Json.tuple?_json
    show (tuples.map Tuple.json).mapM Json.tuple? = some tuples
    rw [List.mapM_map, read]
    exact List.mapM_pure.trans (congrArg some tuples.map_id)

/-- Only the name of a relation is exported. -/
theorem mem_keys_of_exported {tuples : List Tuple} (h : s.exported.get? name = some tuples) :
    ∃ r ∈ s.keys, r.name = name := by
  obtain ⟨r, hr, eq⟩ := List.mem_map.1 (Assoc.mem_of_get?_ofList h)
  exact ⟨r, mem_relations_iff.1 hr, congrArg Prod.fst eq⟩

theorem mem_facts_iff {t : Tuple} : t ∈ s.facts r ↔ s.Holds r t :=
  (Tuple.sort_perm _).mem_iff

/-- A relation with a fact has been mentioned. -/
theorem mem_keys_of_holds {t : Tuple} (h : s.Holds r t) : r ∈ s.keys := by
  cases found : s.get? r with
  | none =>
    rw [Holds, extent, found] at h
    cases h
  | some e => exact List.mem_map.2 ⟨_, Assoc.get?_eq_some_iff.1 found, rfl⟩

/-- **An export keeps the widest relation of each name**, and nothing else.  Under the name stand
the facts of this relation, from where they can be read back.  So no fact of the store is lost if
no two relations share a name. -/
theorem exported_exactly (apart : s.Apart) :
    (∀ r, s.Widest r → ∃ items, s.json.field? r.name = some (.arr items) ∧
      items = (s.facts r).map Tuple.json ∧ (∀ t : Tuple, t.json ∈ items ↔ s.Holds r t) ∧
      s.json.tuples? r.name = some (s.facts r)) ∧
    (∀ name, (∃ j, s.json.field? name = some j) ↔ ∃ r, s.Widest r ∧ r.name = name) ∧
    Function.Injective Term.json ∧
    ((∀ r ∈ s.keys, ∀ r' ∈ s.keys, r.name = r'.name → r = r') → ∀ r t, s.Holds r t →
      ∃ items, s.json.field? r.name = some (.arr items) ∧ t.json ∈ items) := by
  have widest {r : Relation} (h : s.Widest r) :
      s.json.field? r.name = some (.arr ((s.facts r).map Tuple.json)) := by
    rw [field?_json, h.get?_exported apart]
    rfl
  have held {r : Relation} {t : Tuple} : t.json ∈ (s.facts r).map Tuple.json ↔ s.Holds r t :=
    (List.mem_map_of_injective Tuple.json_injective).trans mem_facts_iff
  refine ⟨fun r h => ⟨_, widest h, rfl, fun t => held, ?_⟩, fun name => ⟨?_, ?_⟩,
    Term.json_injective, fun unique r t ht => ?_⟩
  · rw [tuples?_json, h.get?_exported apart]
  · rintro ⟨j, hj⟩
    obtain ⟨tuples, exported, -⟩ := Option.map_eq_some_iff.1 (field?_json s name ▸ hj)
    obtain ⟨r, hr, rfl⟩ := mem_keys_of_exported exported
    exact exists_widest hr
  · rintro ⟨r, hr, rfl⟩
    exact ⟨_, widest hr⟩
  · have mem : r ∈ s.keys := mem_keys_of_holds ht
    have alone : s.Widest r := ⟨mem, fun r' hr' same => (unique r' hr' r mem same) ▸ le_rfl⟩
    exact ⟨_, widest alone, held.2 ht⟩

end Store

/-! ## Two relations with one name -/

namespace Homonyms

/-- A relation with one argument and one with two, both called `p`. -/
def one : Relation := ⟨"p", 1, .extensional⟩

/-- The other relation called `p`. -/
def two : Relation := ⟨"p", 2, .extensional⟩

/-- A store with one fact of each. -/
def store : Store := Store.addAll ∅ [(one, [.lit (.int 1)]), (two, [.lit (.int 1), .lit (.int 2)])]

theorem apart : store.Apart := by
  rw [Store.Apart, show store.keys = [one, two] from rfl]
  decide

theorem widest_two : store.Widest two := ⟨by decide, by decide⟩

/-- **The fact of the narrower relation is lost**, though the two differ in their arity. -/
theorem fact_lost : Store.Built store ∧ store.Apart ∧ store.Holds one [.lit (.int 1)] ∧
    ¬∃ items, store.json.field? "p" = some (.arr items) ∧
      Tuple.json [.lit (.int 1)] ∈ items := by
  refine ⟨Store.Built.empty.addAll fun r => rfl, apart, Store.contains_iff.1 rfl, ?_⟩
  rintro ⟨items, hitems, hmem⟩
  rw [← show two.name = "p" from rfl, Store.field?_json, widest_two.get?_exported apart]
    at hitems
  obtain rfl : (store.facts two).map Tuple.json = items := by cases hitems; rfl
  rw [List.mem_map_of_injective Tuple.json_injective, Store.mem_facts_iff] at hmem
  exact absurd (Store.contains_iff.2 hmem) (by decide)

/-- The narrower relation under a name of its own. -/
def other : Relation := { one with name := "q" }

/-- The same facts, under two names. -/
def renamed : Store :=
  Store.addAll ∅ [(other, [.lit (.int 1)]), (two, [.lit (.int 1), .lit (.int 2)])]

/-- Then neither fact is lost. -/
theorem facts_kept : renamed.Apart ∧
    (∃ items, renamed.json.field? "q" = some (.arr items) ∧ Tuple.json [.lit (.int 1)] ∈ items) ∧
    ∃ items, renamed.json.field? "p" = some (.arr items) ∧
      Tuple.json [.lit (.int 1), .lit (.int 2)] ∈ items := by
  have unique : ∀ r ∈ renamed.keys, ∀ r' ∈ renamed.keys, r.name = r'.name → r = r' := by
    rw [show renamed.keys = [other, two] from rfl]
    decide
  have apart : renamed.Apart := fun r hr r' hr' same _ => unique r hr r' hr' same
  have kept := (Store.exported_exactly apart).2.2.2 unique
  exact ⟨apart, kept other _ (Store.contains_iff.1 rfl), kept two _ (Store.contains_iff.1 rfl)⟩

end Homonyms

end Datalog
