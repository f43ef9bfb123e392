import Datalog.Proofs.Positions

/-!
# Proofs/Filling — stores that insertions have failed on

A tuple that is too short for one of the indices is stored all the same, and the indices that come
after that one go without it.  So in the stores that operations can lead to (`Store.Filled`) a
lookup through an index may miss a tuple, but it makes none up (`Store.Filled.holds_of_lookup`).  If
all tuples have the right arity and all indices are on positions of their relations, no insertion
has failed (`Store.Filled.built`).
-/

namespace Datalog

namespace Store

variable {s s' : Store} {r r' : Relation} {tuple t : Tuple} {positions : List Nat}
  {n : IndexNumber}

/-- **The stores that operations can lead to**: tuples are added, whether or not every index can
take them, and indices registered. -/
inductive Filled : Store → Prop
  | empty : Filled ∅
  | add {s : Store} {r : Relation} {tuple : Tuple} (h : Filled s) : Filled (s.add r tuple).1
  | register {s s' : Store} {r : Relation} {positions : List Nat} {n : IndexNumber} (h : Filled s)
      (ok : s.register r positions = .ok (s', n)) : Filled s'

theorem Built.filled (h : s.Built) : s.Filled := by
  induction h with
  | empty => exact .empty
  | add _ _ ih => exact ih.add
  | register _ ok ih => exact ih.register ok

/-- **A tuple is stored once.** -/
theorem Filled.distinct (h : s.Filled) : ∀ r, (s.extent r).tuples.Nodup := by
  induction h with
  | empty => exact fun _ => List.nodup_nil
  | @add s r tuple _ ih =>
    intro r'
    by_cases hmem : tuple ∈ (s.extent r).tuples
    · rw [add_of_mem hmem]
      exact ih r'
    · rw [tuples_add hmem]
      split
      · next hr => exact List.concat_eq_append ▸ (ih r').concat (hr ▸ hmem)
      · exact ih r'
  | @register s s' r positions n _ ok ih =>
    intro r'
    obtain ⟨_, rfl, _⟩ | ⟨_, ⟨_, _, rfl, _⟩ | ⟨index, _, _, rfl, _⟩⟩ := register_cases ok
    · exact ih r'
    · exact ih r'
    · rw [extent_put]
      split
      · exact ih r
      · exact ih r'

/-! ## What lookups come across -/

/-- **What a lookup can come across**: the tuples of the relation and those that an index has. -/
def Offers (s : Store) (r : Relation) (t : Tuple) : Prop :=
  s.Holds r t ∨ ∃ i ∈ (s.extent r).indices, ∃ values, t ∈ i.group values

theorem offers_of_mem_lookup {key : Key} {n : IndexNumber} (h : t ∈ s.lookup r key n) :
    s.Offers r t := by
  rw [lookup, Extent.lookup] at h
  split at h
  · next i hi =>
    obtain ⟨n, _, hn⟩ := Option.bind_eq_some_iff.1 hi
    split at h
    · next values _ => exact .inr ⟨i, List.mem_of_getElem? hn, values, List.mem_of_mem_filter h⟩
    · exact .inl (List.mem_of_mem_filter h)
  · exact .inl (List.mem_of_mem_filter h)

/-- An index that the tuple is added to has nothing else from that. -/
theorem mem_group_of_insertAll {i' : Index} {values : Tuple} (ht : t ∈ i'.group values) :
    ∀ {indices : List Index}, i' ∈ (Extent.insertAll tuple indices).1 →
      t = tuple ∨ ∃ i ∈ indices, ∃ values, t ∈ i.group values
  | [], h => absurd h List.not_mem_nil
  | i :: is, h => by
    rw [Extent.insertAll] at h
    cases hi : i.insert tuple with
    | error misfit =>
      rw [hi] at h
      exact .inr ⟨i', h, values, ht⟩
    | ok j =>
      rw [hi] at h
      rcases List.mem_cons.1 h with rfl | h
      · obtain ⟨_, chosen, _, hgroup⟩ := Index.insert_ok hi
        rw [hgroup] at ht
        split at ht
        · rcases List.mem_append.1 ht with ht | ht
          · exact .inr ⟨i, List.mem_cons_self .., values, ht⟩
          · exact .inl (List.mem_singleton.1 ht)
        · exact .inr ⟨i, List.mem_cons_self .., values, ht⟩
      · refine (mem_group_of_insertAll ht h).imp_right ?_
        rintro ⟨k, hk, group⟩
        exact ⟨k, List.mem_cons_of_mem _ hk, group⟩

/-- **Adding a tuple** offers nothing else. -/
theorem offers_of_add (h : Offers (s.add r tuple).1 r' t) :
    s.Offers r' t ∨ (r' = r ∧ t = tuple) := by
  rcases h with h | ⟨i', hi', values, ht⟩
  · exact (holds_add_iff.1 h).imp_left .inl
  · by_cases old : tuple ∈ (s.extent r).tuples
    · rw [add_of_mem old] at hi'
      exact .inl (.inr ⟨i', hi', values, ht⟩)
    · rw [add_of_notMem old, extent_put] at hi'
      split at hi'
      · next same =>
        subst same
        exact (mem_group_of_insertAll ht hi').symm.imp .inr fun e => ⟨rfl, e⟩
      · exact .inl (.inr ⟨i', hi', values, ht⟩)

/-- Complete indices offer what is stored. -/
theorem Indexed.holds_of_offers (h : s.Indexed) (offers : s.Offers r t) : s.Holds r t := by
  rcases offers with held | ⟨i, hi, values, ht⟩
  · exact held
  · exact (((h r i hi).2 values t).1 ht).1

/-- **Registering an index** offers nothing else. -/
theorem offers_of_register (ok : s.register r positions = .ok (s', n)) (h : s'.Offers r' t) :
    s.Offers r' t := by
  obtain ⟨_, rfl, _⟩ | ⟨_, ⟨_, _, rfl, _⟩ | ⟨index, _, hindex, rfl, _⟩⟩ := register_cases ok
  · exact h
  · exact h
  · rcases h with h | ⟨i, hi, values, ht⟩
    · exact .inl ((holds_register_iff ok).1 h)
    · rw [extent_put] at hi
      split at hi
      · next same =>
        subst same
        rcases List.mem_append.1 hi with hi | hi
        · exact .inr ⟨i, hi, values, ht⟩
        · obtain rfl := List.mem_singleton.1 hi
          exact .inl (((Index.covers_build hindex).2 values t).1 ht).1
      · exact .inr ⟨i, hi, values, ht⟩

/-- **Nothing is offered but what is stored.** -/
theorem Filled.holds_of_offers (h : s.Filled) (offers : s.Offers r t) : s.Holds r t := by
  induction h with
  | empty =>
    rcases offers with held | ⟨i, hi, _⟩
    · exact held
    · cases hi
  | add _ ih => exact holds_add_iff.2 ((offers_of_add offers).imp_left ih)
  | register _ ok ih => exact (holds_register_iff ok).2 (ih (offers_of_register ok offers))

/-- **A lookup finds stored tuples**, also where an insertion has failed. -/
theorem Filled.holds_of_lookup (h : s.Filled) {key : Key} (found : t ∈ s.lookup r key n) :
    s.Holds r t :=
  h.holds_of_offers (offers_of_mem_lookup found)

/-! ## Where no insertion can have failed -/

/-- **If everything fits now, everything has fitted before**, since tuples and indices stay. -/
theorem Filled.built (h : s.Filled) (shaped : s.Shaped)
    (measured : ∀ r t, s.Holds r t → t.length = r.arity) : s.Built := by
  induction h with
  | empty => exact .empty
  | @add s r tuple _ ih =>
    have shaped := shaped_add_iff.1 shaped
    have earlier : ∀ r t, s.Holds r t → t.length = r.arity :=
      fun r t ht => measured r t (holds_add_iff.2 (.inl ht))
    exact (ih shaped earlier).add
      (shaped.fits (measured r tuple (holds_add_iff.2 (.inr ⟨rfl, rfl⟩))))
  | register _ ok ih =>
    exact (ih (shaped.of_register ok)
      fun r t ht => measured r t ((holds_register_iff ok).2 ht)).register ok

end Store

/-! ## An example -/

namespace Torn

/-- A relation of one argument. -/
def q : Relation := ⟨"q", 1, .bottomUp⟩

/-- Two indices of `q`, the first one on a position that it does not have. -/
def indexed : Store :=
  match Store.register ∅ q [3] with
  | .ok (s, _) =>
    match s.register q [0] with
    | .ok (s, _) => s
    | .error _ => ∅
  | .error _ => ∅

/-- The first index cannot take the fact, so the second one goes without it. -/
def store : Store := (indexed.add q [.int 1]).1

theorem indexed_ok : ∃ s n, Store.register ∅ q [3] = .ok (s, n) ∧
    ∃ n, s.register q [0] = .ok (indexed, n) :=
  ⟨_, _, rfl, _, rfl⟩

theorem indexed_built : indexed.Built :=
  have ⟨_, _, first, _, second⟩ := indexed_ok
  (Store.Built.empty.register first).register second

theorem filled : store.Filled := indexed_built.filled.add

theorem holds_iff {r : Relation} {t : Tuple} : store.Holds r t ↔ r = q ∧ t = [.int 1] := by
  obtain ⟨_, _, first, _, second⟩ := indexed_ok
  have none : ¬indexed.Holds r t := by
    rw [Store.holds_register_iff second, Store.holds_register_iff first]
    exact nofun
  rw [store, Store.holds_add_iff, or_iff_right none]

/-- **A fact that is stored and not found**: the second index misses it. -/
theorem not_found : store.Holds q [.int 1] ∧ store.lookup q [some (.int 1)] (some 1) = [] :=
  ⟨holds_iff.2 ⟨rfl, rfl⟩, by cbv⟩

end Torn

end Datalog
