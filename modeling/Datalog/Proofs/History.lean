import Datalog.Proofs.Positions

/-!
# Proofs/History — a store through any sequence of operations

Whatever has been added and registered, in whatever order, each index has every tuple of its
relation exactly once (`Index.Represents`), and the number of an index stands for the same
positions ever after (`Store.Later.numbering`).  So a lookup is a scan, without repetitions
(`Store.Built.faithful`).
-/

namespace Datalog

/-! ## One index -/

namespace Index

variable {index index' : Index} {tuple : Tuple} {tuples : List Tuple} {positions : List Nat}

/-- **The index represents the tuples**: each of them stands once in the group of its own values,
not at all in any other, and nothing else does. -/
structure Represents (index : Index) (tuples : List Tuple) : Prop where
  once : ∀ t ∈ tuples, ∃ values, project t index.positions = .ok values ∧
    ∀ values', (index.group values').count t = if values' = values then 1 else 0
  only : ∀ values, ∀ t ∈ index.group values, t ∈ tuples

theorem represents_nil : Represents { positions } [] where
  once := nofun
  only values t h := by simp [group] at h

/-- **A new tuple** is counted where it is put, and nowhere else. -/
theorem Represents.insert (h : index.Represents tuples) (new : tuple ∉ tuples)
    (ok : index.insert tuple = .ok index') : index'.Represents (tuples ++ [tuple]) := by
  obtain ⟨positions, values, hvalues, hgroup⟩ := insert_ok ok
  refine ⟨List.forall_mem_append.2 ⟨fun t ht => ?_, List.forall_mem_singleton.2
    ⟨values, positions ▸ hvalues, fun values' => ?_⟩⟩, fun values' t ht => ?_⟩
  · have other : tuple ≠ t := fun e => new (e ▸ ht)
    obtain ⟨own, hown, count⟩ := h.once t ht
    refine ⟨own, positions ▸ hown, fun values' => ?_⟩
    rw [← count, hgroup]
    split
    · rw [List.count_append, List.count_eq_zero.2 fun h => other (List.mem_singleton.1 h).symm,
        Nat.add_zero]
    · rfl
  · have none : (index.group values').count tuple = 0 :=
      List.count_eq_zero.2 fun ht => new (h.only values' tuple ht)
    rw [hgroup]
    split <;> simp [none]
  · rw [hgroup] at ht
    split at ht
    · exact (List.mem_append.1 ht).elim (fun ht => List.mem_append_left _ (h.only values' t ht))
        (List.mem_append_right _)
    · exact List.mem_append_left _ (h.only values' t ht)

/-- An index of distinct tuples represents them. -/
theorem represents_build (distinct : tuples.Nodup) (ok : build positions tuples = .ok index) :
    index.Represents tuples := by
  refine build_induction (P := fun index tuples => tuples.Nodup → index.Represents tuples)
    (fun _ => represents_nil) (fun index index' ts t earlier ok distinct => ?_) ok distinct
  obtain ⟨distinct, _, new⟩ := List.nodup_append.1 distinct
  exact (earlier distinct).insert (fun ht => new t ht t (List.mem_singleton_self t) rfl) ok

/-- Groups repeat nothing. -/
theorem Represents.nodup_group (h : index.Represents tuples) (values : Tuple) :
    (index.group values).Nodup := by
  refine List.nodup_iff_count_le_one.2 fun t => ?_
  by_cases ht : t ∈ index.group values
  · obtain ⟨own, _, count⟩ := h.once t (h.only values t ht)
    rw [count]
    split <;> omega
  · simp [List.count_eq_zero.2 ht]

end Index

/-! ## One relation -/

namespace Extent

variable {e : Extent}

/-- The tuples are distinct, and every index represents them. -/
structure Represented (e : Extent) : Prop where
  distinct : e.tuples.Nodup
  indices : ∀ i ∈ e.indices, i.Represents e.tuples

/-- **A lookup repeats nothing**, whichever index it uses. -/
theorem Represented.nodup_lookup (h : e.Represented) (key : Key) (n : IndexNumber) :
    (e.lookup key n).Nodup := by
  rw [lookup]
  split
  · next i hi =>
    obtain ⟨k, _, hk⟩ := Option.bind_eq_some_iff.1 hi
    split
    · next values _ =>
      exact ((h.indices i (List.mem_of_getElem? hk)).nodup_group values).filter _
    · exact h.distinct.filter _
  · exact h.distinct.filter _

end Extent

namespace Store

variable {s s' s'' : Store} {r r' : Relation} {tuple : Tuple} {positions : List Nat}
  {n : IndexNumber}

/-! ## All relations -/

/-- Every relation has the tuples of its indices, and no others. -/
def Represented (s : Store) : Prop := ∀ r, (s.extent r).Represented

theorem Represented.put (h : s.Represented) {e : Extent} (he : e.Represented) :
    Represented (s.put r e) := by
  intro r'
  rw [extent_put]
  split
  · exact he
  · exact h r'

theorem represented_empty : Represented ∅ := fun _ => ⟨List.nodup_nil, nofun⟩

theorem Represented.add (h : s.Represented) (fits : ∀ m, (s.add r tuple).2 ≠ .misfit m) :
    Represented (s.add r tuple).1 := by
  by_cases hmem : tuple ∈ (s.extent r).tuples
  · rw [add_of_mem hmem]
    exact h
  · rw [add_of_notMem hmem]
    refine h.put ⟨List.concat_eq_append ▸ (h r).distinct.concat hmem, fun i' hi' => ?_⟩
    obtain ⟨i, hi, ok⟩ := Outcome.exists_of_forall₂ (insertAll_of_fits hmem fits).flip hi'
    exact ((h r).indices i hi).insert hmem ok

theorem Represented.register (h : s.Represented) (ok : s.register r positions = .ok (s', n)) :
    Represented s' := by
  obtain ⟨_, rfl, _⟩ | ⟨_, ⟨_, _, rfl, _⟩ | ⟨index, _, hindex, rfl, _⟩⟩ := register_cases ok
  · exact h
  · exact h
  · refine h.put ⟨(h r).distinct, List.forall_mem_append.2 ⟨(h r).indices, fun i hi => ?_⟩⟩
    obtain rfl := List.mem_singleton.1 hi
    exact Index.represents_build (h r).distinct hindex

theorem Built.represented (h : s.Built) : s.Represented := by
  induction h with
  | empty => exact represented_empty
  | add _ fits ih => exact ih.add fits
  | register _ ok ih => exact ih.register ok

/-! ## What comes later -/

/-- **The store later on**: tuples are added and indices registered, and none of it fails. -/
inductive Later (s : Store) : Store → Prop
  | refl : Later s s
  | add {s' : Store} {r : Relation} {tuple : Tuple} (h : Later s s')
      (fits : ∀ m, (s'.add r tuple).2 ≠ .misfit m) : Later s (s'.add r tuple).1
  | register {s' s'' : Store} {r : Relation} {positions : List Nat} {n : IndexNumber}
      (h : Later s s') (ok : s'.register r positions = .ok (s'', n)) : Later s s''

/-- **A number stands for the same positions ever after.** -/
theorem Later.numbering (h : s.Later s') (r : Relation) : s.numbering r <+: s'.numbering r := by
  induction h with
  | refl => exact List.prefix_rfl
  | add _ _ ih =>
    rw [numbering_add]
    exact ih
  | register _ ok ih => exact ih.trans (numbering_register ok)

/-! ## Numbers -/

/-- **Registering returns the number of an index on the positions**, or asks for a scan if there
are none. -/
theorem number_of_register (ok : s.register r positions = .ok (s', n)) :
    (positions = [] ∧ n = none) ∨ (positions ≠ [] ∧ ∃ k, n = some k ∧
      (s'.numbering r).findIdx? (· == positions) = some k) := by
  obtain ⟨hnil, _, rfl⟩ | ⟨hne, ⟨k, hk, rfl, rfl⟩ | ⟨index, hnone, hindex, rfl, rfl⟩⟩ :=
    register_cases ok
  · exact .inl ⟨hnil, rfl⟩
  · refine .inr ⟨hne, k, rfl, ?_⟩
    rw [Store.numbering, List.findIdx?_map]
    exact hk
  · refine .inr ⟨hne, _, rfl, ?_⟩
    have last := Index.positions_build hindex
    have none : (s.extent r).indices.findIdx? ((· == positions) ∘ Index.positions) = none := hnone
    rw [numbering_put, if_pos rfl, List.findIdx?_map, List.findIdx?_append, none]
    simp [last]

/-- Positions that have an index are not registered once more. -/
theorem register_of_number {k : Nat} (hne : positions ≠ [])
    (hk : (s.numbering r).findIdx? (· == positions) = some k) :
    s.register r positions = .ok (s, some k) := by
  have hempty : ¬positions.isEmpty = true := fun h => hne (List.isEmpty_iff.1 h)
  have known : (s.extent r).indices.findIdx? (·.positions == positions) = some k := by
    rw [← hk, Store.numbering, List.findIdx?_map]
    rfl
  rw [register, if_neg hempty]
  dsimp only
  rw [known]

/-- **What a store promises after any history.** -/
structure Faithful (s : Store) : Prop where
  /-- Every index has each tuple of its relation exactly once, in the group of its values. -/
  indices : ∀ r, ∀ i ∈ (s.extent r).indices, i.Represents (s.extent r).tuples
  /-- A number that has been returned stands for its positions ever after, and registering these
  again returns it and changes nothing. -/
  numbers : ∀ r positions s' n, s.register r positions = .ok (s', n) → ∀ s'', s'.Later s'' →
    s''.register r positions = .ok (s'', n) ∧
      n.bind ((s''.numbering r)[·]?) = if positions = [] then none else some positions
  /-- A lookup finds the tuples that agree with the key at every position that both have and the
  key fixes, each of them once, whatever number it is given. -/
  lookups : ∀ r key n, (s.lookup r key n).Nodup ∧ ∀ t, t ∈ s.lookup r key n ↔ s.Holds r t ∧
    ∀ (p : Nat) x y, key[p]? = some (some x) → t[p]? = some y → x = y

/-- **A store is faithful after any sequence of operations.** -/
theorem Built.faithful (built : s.Built) : s.Faithful where
  indices r := (built.represented r).indices
  numbers := by
    intro r positions s' n ok s'' later
    obtain ⟨rfl, rfl⟩ | ⟨hne, k, rfl, hk⟩ := number_of_register ok
    · exact ⟨rfl, rfl⟩
    · have hk := (later.numbering r).findIdx?_eq_some hk
      obtain ⟨hlt, same, _⟩ := List.findIdx?_eq_some_iff_getElem.1 hk
      refine ⟨register_of_number hne hk, ?_⟩
      rw [if_neg hne, Option.bind_some, List.getElem?_eq_getElem hlt, eq_of_beq same]
  lookups r key n := by
    refine ⟨(built.represented r).nodup_lookup key n, fun t => ?_⟩
    rw [built.indexed.mem_lookup_iff, Key.agrees_iff]

end Store

/-! ## An example -/

namespace Edges

/-- A relation of two arguments. -/
def edge : Relation := ⟨"edge", 2, .extensional⟩

/-- Two edges before the index, one after it, and one that is there already. -/
def store : Store :=
  let two := ((Store.add ∅ edge [.int 1, .int 2]).1.add edge [.int 2, .int 3]).1
  match two.register edge [0] with
  | .ok (s, _) => ((s.add edge [.int 1, .int 4]).1.add edge [.int 1, .int 2]).1
  | .error _ => ∅

theorem built : store.Built := by
  have one : (Store.add ∅ edge [.int 1, .int 2]).1.Built := Store.Built.empty.add nofun
  have shaped : (Store.add ∅ edge [.int 1, .int 2]).1.Shaped := Store.shaped_empty.add
  rw [store]
  split
  · next s n ok =>
    have two : s.Built := (one.add (shaped.fits rfl)).register ok
    have shaped : s.Shaped := shaped.add.register (by decide) ok
    exact (two.add (shaped.fits rfl)).add (shaped.add.fits rfl)
  · exact .empty

/-- The group of 1 has two edges, and a lookup finds these. -/
theorem found_once : store.Faithful ∧
    store.lookup edge [some (.int 1), none] (some 0) = [[.int 1, .int 2], [.int 1, .int 4]] :=
  ⟨built.faithful, by cbv⟩

end Edges

end Datalog
