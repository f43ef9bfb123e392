import Mathlib
import Datalog.Meaning.Cursor
import Datalog.Proofs.Evaluation.Work

/-!
# Proofs/Cursor — cursors over the batches

Cutting a list into cursors and reading them one after the other never fails, and gives the batches
of the list (`Cursor.chunks_partition`).  The words suffice because only the first cursor starts at
0: any other one starts no earlier than the size that is added to it, within a list that takes no
more than half of the words.
-/

namespace Datalog

/-! ## Entries that lie apart -/

/-- One entry, and then as many as the distance fits into what comes after it. -/
theorem succ_ceilDiv (n : Nat) {step : Nat} (pos : 0 < step) :
    (n + 1) ⌈/⌉ step = (n - (step - 1)) ⌈/⌉ step + 1 := by
  have shifted : n + 1 + step - 1 = n + step := by omega
  rw [Nat.ceilDiv_eq_add_pred_div, Nat.ceilDiv_eq_add_pred_div, shifted, Nat.add_div_right _ pos]
  congr 1
  rcases Nat.lt_or_ge n (step - 1) with lt | ge
  · rw [Nat.div_eq_of_lt (by omega), Nat.div_eq_of_lt (by omega)]
  · congr 1
    omega

/-- **Numbers that lie apart** are multiples of the distance, counted from the first. -/
theorem every_range' (start : Nat) {step : Nat} (pos : 0 < step) (n : Nat) :
    every step (List.range' start n) =
      (List.range (n ⌈/⌉ step)).map fun i => start + i * step := by
  induction n using Nat.strong_induction_on generalizing start with
  | _ n ih =>
  cases n with
  | zero => simp [every]
  | succ n =>
    rw [List.range'_succ, every, List.drop_range', ih _ (by omega), succ_ceilDiv n pos,
      List.range_succ_eq_map, List.map_cons, List.map_map, Nat.zero_mul, Nat.add_zero]
    refine congrArg (start :: ·) (List.map_congr_left fun i _ => ?_)
    rw [Function.comp_apply, Nat.succ_mul]
    omega

/-! ## Batches -/

/-- A multiple of the size that is counted lies in the list. -/
theorem mul_lt_of_lt_ceilDiv {i n size : Nat} (pos : 0 < size) (h : i < n ⌈/⌉ size) :
    i * size < n := by
  rw [← not_le, ceilDiv_le_iff_le_mul pos, not_le, Nat.mul_comm] at h
  exact h

theorem batches_eq_map (size : Nat) (xs : List α) : batches size xs =
    (List.range (xs.length ⌈/⌉ max size 1)).map fun i =>
      (xs.drop (i * max size 1)).take (max size 1) := by
  rw [batches, Nat.ceilDiv_eq_add_pred_div]

/-- **A batch is not empty** and no larger than the size. -/
theorem length_of_mem_batches {size : Nat} {xs batch : List α} (h : batch ∈ batches size xs) :
    batch ≠ [] ∧ batch.length ≤ max size 1 := by
  rw [batches_eq_map] at h
  obtain ⟨i, hi, rfl⟩ := List.mem_map.1 h
  have inside := mul_lt_of_lt_ceilDiv (Nat.le_max_right size 1) (List.mem_range.1 hi)
  refine ⟨List.length_pos_iff.1 ?_, List.length_take_le ..⟩
  rw [List.length_take, List.length_drop]
  omega

/-! ## Cursors -/

namespace Cursor

variable {w : Nat} {α : Type} {c c' : Cursor w α} {x : α}

theorem drain_of_eq (h : c.next = c.stop) : c.drain = some [] := by
  have atEnd : c.advance? = some (none, c) := if_pos h
  rw [drain]
  split
  · next h => cases atEnd.symm.trans h
  · rfl
  · next h => cases atEnd.symm.trans h

theorem drain_of_advance? (moved : c.advance? = some (some x, c')) :
    c.drain = c'.drain.map (x :: ·) := by
  rw [drain]
  split
  · next h => cases moved.symm.trans h
  · next h => cases moved.symm.trans h
  · next h =>
    cases moved.symm.trans h
    exact Option.map_eq_bind.symm

/-- **Before its end**, within the list, a cursor can be moved on. -/
theorem exists_advance? (unread : c.next.toNat < c.stop.toNat)
    (inside : c.stop.toNat ≤ c.shared.entries.length) :
    ∃ x c', c.advance? = some (some x, c') := by
  have bounded := c.stop.isLt
  refine ⟨c.shared.entries[c.next.toNat], { c with next := .ofNat w (c.next.toNat + 1) },
    advance?_eq_iff.2 ⟨?_, List.getElem?_eq_getElem (by omega), rfl, rfl, ?_⟩⟩
  · intro h
    rw [h] at unread
    exact Nat.lt_irrefl _ unread
  · rw [BitVec.toNat_ofNat, Nat.mod_eq_of_lt (by omega)]

/-- **A cursor within its list** reads the stretch up to its end, and does not fail. -/
theorem drain_eq (left : c.next.toNat ≤ c.stop.toNat)
    (inside : c.stop.toNat ≤ c.shared.entries.length) : c.drain =
      some ((c.shared.entries.drop c.next.toNat).take (c.stop.toNat - c.next.toNat)) := by
  generalize hk : c.stop.toNat - c.next.toNat = k
  induction k generalizing c with
  | zero => rw [drain_of_eq (BitVec.toNat_inj.1 (by omega)), List.take_zero]
  | succ k ih =>
    obtain ⟨x, c', moved⟩ := exists_advance? (by omega) inside
    obtain ⟨_, read, shared, stop, next⟩ := advance?_eq_iff.1 moved
    obtain ⟨unread, rfl⟩ := List.getElem?_eq_some_iff.1 read
    rw [← stop] at hk inside
    rw [drain_of_advance? moved, ih (by omega) (shared ▸ inside) (by omega), shared, next,
      List.drop_eq_getElem_cons unread, List.take_succ_cons]
    rfl

variable {xs : Shared w α} {size : BitVec w}

/-- The smaller of two words. -/
theorem toNat_ite_lt (a b : BitVec w) : (if a < b then a else b).toNat = min a.toNat b.toNat := by
  split
  · next lt => exact (Nat.min_eq_left (Nat.le_of_lt lt)).symm
  · next ge => exact (Nat.min_eq_right (Nat.le_of_not_lt ge)).symm

/-- **A cursor within its list**, if the sum that makes its end is a word. -/
theorem exists_from? {start : Nat} (inside : start < xs.entries.length)
    (room : start + size.toNat < 2 ^ w) : ∃ c, from? xs size start = some c ∧ c.shared = xs ∧
      c.next.toNat = start ∧ c.stop.toNat = min (start + size.toNat) xs.entries.length := by
  have word {n : Nat} (h : n < 2 ^ w) : (BitVec.ofNat w n).toNat = n := by
    rw [BitVec.toNat_ofNat, Nat.mod_eq_of_lt h]
  have fits := xs.fits
  have next := word (n := start) (by omega)
  have sum : Word.add? (BitVec.ofNat w start) size = some (.ofNat w (start + size.toNat)) := by
    rw [Word.add?_eq_some_iff, word room, next]
  refine ⟨_, Option.bind_eq_some_iff.2 ⟨_, sum, rfl⟩, rfl, next, ?_⟩
  rw [toNat_ite_lt, word room, word (by omega)]

/-- **The cursor of a batch** reads the batch.  No sum is too large: the cursor starts at 0, or the
size is no more than the start. -/
theorem exists_reading {i : Nat} (inside : i * size.toNat < xs.entries.length) :
    ∃ c, from? xs size (i * size.toNat) = some c ∧
      c.drain = some ((xs.entries.drop (i * size.toNat)).take size.toNat) := by
  have fits := xs.fits
  have bounded := size.isLt
  have room : i * size.toNat + size.toNat < 2 ^ w := by
    rcases Nat.eq_zero_or_pos i with rfl | pos
    · omega
    · have := Nat.le_mul_of_pos_left size.toNat pos
      omega
  obtain ⟨c, made, shared, next, stop⟩ := exists_from? inside room
  refine ⟨c, made, ?_⟩
  rw [drain_eq (by omega) (by rw [shared]; omega), shared, next, stop]
  refine congrArg some (List.take_eq_take_iff.2 ?_)
  rw [List.length_drop]
  omega

/-- What two functions do to a list, one after the other, if neither fails on an entry. -/
theorem exists_mapM {α β γ : Type} {f : α → Option β} {g : β → Option γ} {h : α → γ} :
    ∀ {as : List α}, (∀ a ∈ as, ∃ b, f a = some b ∧ g b = some (h a)) →
      ∃ bs, as.mapM f = some bs ∧ bs.length = as.length ∧ bs.mapM g = some (as.map h)
  | [], _ => ⟨[], rfl, rfl, rfl⟩
  | a :: as, each => by
    obtain ⟨b, hf, hg⟩ := each a (List.mem_cons_self ..)
    obtain ⟨bs, hfs, length, hgs⟩ := exists_mapM fun a ha => each a (List.mem_cons_of_mem _ ha)
    refine ⟨b :: bs, ?_, congrArg (· + 1) length, ?_⟩
    · rw [List.mapM_cons, hf, hfs]
      rfl
    · rw [List.mapM_cons, hg, hgs]
      rfl

/-- **The cursors of all batches**, if the size is not 0. -/
theorem exists_cursors (xs : Shared w α) (pos : 0 < size.toNat) : ∃ cursors,
    (every size.toNat (List.range xs.entries.length)).mapM (from? xs size) = some cursors ∧
    cursors.length = xs.entries.length ⌈/⌉ size.toNat ∧
    cursors.mapM drain = some ((List.range (xs.entries.length ⌈/⌉ size.toNat)).map fun i =>
      (xs.entries.drop (i * size.toNat)).take size.toNat) := by
  have starts : every size.toNat (List.range xs.entries.length) =
      (List.range (xs.entries.length ⌈/⌉ size.toNat)).map (· * size.toNat) := by
    rw [List.range_eq_range', every_range' 0 pos]
    exact List.map_congr_left fun i _ => Nat.zero_add _
  have each (i : Nat) (hi : i ∈ List.range (xs.entries.length ⌈/⌉ size.toNat)) :
      ∃ c, from? xs size (i * size.toNat) = some c ∧
        c.drain = some ((xs.entries.drop (i * size.toNat)).take size.toNat) :=
    exists_reading (mul_lt_of_lt_ceilDiv pos (List.mem_range.1 hi))
  obtain ⟨cursors, made, length, drained⟩ := exists_mapM each
  rw [starts, List.mapM_map]
  exact ⟨cursors, made, length.trans List.length_range, drained⟩

/-- The size that counts, where 1 is a word. -/
theorem toNat_ite_zero (size : BitVec w) (pos : 0 < w) :
    (if size = 0#w then 1#w else size).toNat = max size.toNat 1 := by
  split
  · next zero =>
    rw [zero, BitVec.toNat_one pos, BitVec.toNat_zero]
    rfl
  · next nonzero =>
    have : size.toNat ≠ 0 := fun h => nonzero (BitVec.toNat_inj.1 h)
    omega

/-- **Cursors partition the list.**  Cutting a list in memory into cursors of any size, where 0
counts as 1, and reading all of them does not fail: no sum is too large and no position lies outside
of the list.  What the cursors read are the batches that a lookup is worked off in; these are the
list, in its order, and each has at least one entry and no more than the size.  The number of the
cursors is the length of the list divided by the size, rounded up. -/
theorem chunks_partition (xs : Shared w α) (size : BitVec w) : ∃ cursors,
    chunks xs size = some cursors ∧
    cursors.mapM drain = some (batches size.toNat xs.entries) ∧
    (batches size.toNat xs.entries).flatten = xs.entries ∧
    (∀ batch ∈ batches size.toNat xs.entries, batch ≠ [] ∧ batch.length ≤ max size.toNat 1) ∧
    cursors.length = xs.entries.length ⌈/⌉ max size.toNat 1 := by
  suffices read : ∃ cursors, chunks xs size = some cursors ∧
      cursors.length = xs.entries.length ⌈/⌉ max size.toNat 1 ∧
      cursors.mapM drain = some (batches size.toNat xs.entries) by
    obtain ⟨cursors, made, length, drained⟩ := read
    exact ⟨cursors, made, drained, Work.flatten_batches .., fun _ => length_of_mem_batches, length⟩
  rw [chunks, batches_eq_map]
  by_cases empty : xs.entries = []
  · exact ⟨[], by simp [empty, every], by simp [empty], by simp [empty]⟩
  have fits := xs.fits
  have filled := List.length_pos_iff.2 empty
  have pos : 0 < w := by
    rcases Nat.eq_zero_or_pos w with rfl | pos
    · omega
    · exact pos
  rw [← toNat_ite_zero size pos]
  refine exists_cursors xs ?_
  rw [toNat_ite_zero size pos]
  exact Nat.le_max_right ..

/-- Seven entries, three at a time. -/
example : (chunks ⟨[0, 1, 2, 3, 4, 5, 6], by decide⟩ 3#64).bind (·.mapM drain) =
    some [[0, 1, 2], [3, 4, 5], [6]] := by cbv

/-- The largest size there is takes all of them. -/
example : (chunks ⟨[0, 1, 2, 3, 4, 5, 6], by decide⟩ (.allOnes 64)).bind (·.mapM drain) =
    some [[0, 1, 2, 3, 4, 5, 6]] := by cbv

end Cursor

end Datalog
