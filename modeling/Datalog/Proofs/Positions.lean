import Datalog.Proofs.Store

/-!
# Proofs/Positions — what the indices are on

An index keeps its number and its positions for good, whatever is added to the store, also where an
insertion fails half-way (`Store.numbering_add`, `Store.numbering_register`).  In a **shaped** store
all of them are on positions that their relations have, and then every tuple of the right arity
fits (`Store.Shaped.fits`).
-/

namespace Datalog

namespace Store

variable {s s' : Store} {r r' : Relation} {tuple : Tuple} {positions : List Nat} {n : IndexNumber}

/-! ## Numbers -/

/-- The positions that the indices of a relation are on, by number. -/
def numbering (s : Store) (r : Relation) : List (List Nat) :=
  (s.extent r).indices.map Index.positions

theorem numbering_put {e : Extent} : numbering (s.put r e) r' =
    if r = r' then e.indices.map Index.positions else s.numbering r' := by
  rw [Store.numbering, extent_put]
  split <;> rfl

/-- **No tuple changes an index's positions.** -/
theorem numbering_add : numbering (s.add r tuple).1 r' = s.numbering r' := by
  by_cases hmem : tuple ∈ (s.extent r).tuples
  · rw [add_of_mem hmem]
  · rw [add_of_notMem hmem, numbering_put, Extent.positions_insertAll]
    split
    · next hr => rw [hr, numbering]
    · rfl

/-- A new index comes last. -/
theorem numbering_register (ok : s.register r positions = .ok (s', n)) :
    s.numbering r' <+: s'.numbering r' := by
  obtain ⟨_, rfl, _⟩ | ⟨_, ⟨_, _, rfl, _⟩ | ⟨index, _, _, rfl, _⟩⟩ := register_cases ok
  · exact List.prefix_rfl
  · exact List.prefix_rfl
  · rw [numbering_put]
    split
    · next hr =>
      subst hr
      rw [List.map_append]
      exact List.prefix_append ..
    · exact List.prefix_rfl

/-! ## Positions of the relation -/

/-- **Every index is on positions that its relation has**, so it can take any tuple of the right
arity. -/
def Shaped (s : Store) : Prop := ∀ r, ∀ i ∈ (s.extent r).indices, ∀ p ∈ i.positions, p < r.arity

/-- It is a matter of the positions alone. -/
theorem shaped_iff :
    s.Shaped ↔ ∀ r, ∀ positions ∈ s.numbering r, ∀ p ∈ positions, p < r.arity := by
  simp only [Shaped, numbering, List.forall_mem_map]

theorem shaped_empty : Shaped ∅ := fun _ _ h => nomatch h

/-- Adding a tuple makes no difference. -/
theorem shaped_add_iff : Shaped (s.add r tuple).1 ↔ s.Shaped := by
  simp only [shaped_iff, numbering_add]

theorem Shaped.add (h : s.Shaped) : Shaped (s.add r tuple).1 := shaped_add_iff.2 h

/-- **A tuple of the right arity fits.** -/
theorem Shaped.fits (h : s.Shaped) (hlen : tuple.length = r.arity) (m : Misfit) :
    (s.add r tuple).2 ≠ .misfit m := by
  by_cases hmem : tuple ∈ (s.extent r).tuples
  · rw [add_of_mem hmem]
    exact nofun
  · rw [add_of_notMem hmem, Extent.insertAll_none fun i hi p hp => hlen ▸ h r i hi p hp]
    exact nofun

/-- Registering an index on positions of the relation. -/
theorem Shaped.register (h : s.Shaped) (hp : ∀ p ∈ positions, p < r.arity)
    (ok : s.register r positions = .ok (s', n)) : Shaped s' := by
  obtain ⟨_, rfl, _⟩ | ⟨_, ⟨_, _, rfl, _⟩ | ⟨index, _, hindex, rfl, _⟩⟩ := register_cases ok
  · exact h
  · exact h
  · intro r' i hi
    rw [extent_put] at hi
    split at hi
    · next hr =>
      subst hr
      rcases List.mem_append.1 hi with hi | hi
      · exact h r i hi
      · obtain rfl := List.mem_singleton.1 hi
        rw [Index.positions_build hindex]
        exact hp
    · exact h r' i hi

/-- What was there before an index was registered is shaped as well. -/
theorem Shaped.of_register (h : s'.Shaped) (ok : s.register r positions = .ok (s', n)) :
    s.Shaped :=
  shaped_iff.2 fun r' ps hps => shaped_iff.1 h r' ps ((numbering_register ok).subset hps)

end Store

end Datalog
