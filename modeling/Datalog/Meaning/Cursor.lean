import Mathlib.Algebra.Group.Nat.Defs
import Datalog.Evaluation.Batch

/-!
# Meaning/Cursor — batches as cursors into a shared list

The batches of a lookup need no lists of their own.  Each can be a **cursor** into the list that was
found: a position that moves up to an end.  Positions are machine words of `w` bits, so a sum of two
may be too large, and a position may lie outside of the list.  Here both are failures, `none`, so
that it can be said that there are none.
-/

namespace Datalog

namespace Word

variable {w : Nat} {a b c : BitVec w}

/-- The sum of two machine words, unless it takes more bits. -/
def add? (a b : BitVec w) : Option (BitVec w) := if a.uaddOverflow b then none else some (a + b)

/-- **A word is the sum of two words** exactly if it is so as a number. -/
theorem add?_eq_some_iff : add? a b = some c ↔ c.toNat = a.toNat + b.toNat := by
  have bounded := c.isLt
  rw [add?]
  split
  · next overflow =>
    rw [BitVec.uaddOverflow, decide_eq_true_iff] at overflow
    exact iff_of_false nofun (by omega)
  · next fits =>
    rw [Option.some_inj, ← BitVec.toNat_inj, BitVec.toNat_add_of_not_uaddOverflow fits]
    exact eq_comm

/-- Where there are two words there is a word for 1. -/
theorem toNat_one (h : a ≠ b) : (1#w).toNat = 1 := by
  cases w with
  | zero => exact (h (BitVec.eq_of_zero_length rfl)).elim
  | succ w => exact BitVec.toNat_one (Nat.succ_pos w)

end Word

/-- **A list that lies in memory**: its length is a word, also if one bit is kept for a sign. -/
structure Shared (w : Nat) (α : Type) where
  entries : List α
  fits : 2 * entries.length < 2 ^ w

/-- The entries that lie `step` places apart, from the first one on. -/
def every (step : Nat) : List α → List α
  | [] => []
  | x :: xs => x :: every step (xs.drop (step - 1))
termination_by xs => xs.length
decreasing_by
  rw [List.length_drop, List.length_cons]
  omega

/-- A stretch of a shared list that is still to be read, from `next` up to `stop`. -/
structure Cursor (w : Nat) (α : Type) where
  shared : Shared w α
  next : BitVec w
  stop : BitVec w

namespace Cursor

variable {w : Nat} {α : Type}

/-- The cursor that starts at a position; it ends `size` entries further or where the list ends. -/
def from? (xs : Shared w α) (size : BitVec w) (start : Nat) : Option (Cursor w α) := do
  let start := BitVec.ofNat w start
  let length := BitVec.ofNat w xs.entries.length
  let stop ← Word.add? start size
  return { shared := xs, next := start, stop := if stop < length then stop else length }

/-- **Cuts a list into cursors** of `size` entries, the last one possibly smaller; a size of 0
counts as 1. -/
def chunks (xs : Shared w α) (size : BitVec w) : Option (List (Cursor w α)) :=
  let size := if size = 0#w then 1#w else size
  (every size.toNat (List.range xs.entries.length)).mapM (from? xs size)

/-- **Moves the cursor on** and reads the entry that it has passed, unless it is at its end. -/
def advance? (c : Cursor w α) : Option (Option α × Cursor w α) :=
  if c.next = c.stop then some (none, c)
  else do
    let next ← Word.add? c.next 1#w
    let x ← c.shared.entries[(next - 1#w).toNat]?
    return (some x, { c with next })

/-- **What is read** is the entry at the cursor, and the cursor is one further then. -/
theorem advance?_eq_iff {c c' : Cursor w α} {x : α} : c.advance? = some (some x, c') ↔
    c.next ≠ c.stop ∧ c.shared.entries[c.next.toNat]? = some x ∧
      c'.shared = c.shared ∧ c'.stop = c.stop ∧ c'.next.toNat = c.next.toNat + 1 := by
  rw [advance?]
  split
  · next atEnd => exact iff_of_false nofun fun h => h.1 atEnd
  · next unread =>
    have one := Word.toNat_one unread
    have before {next : BitVec w} (h : next.toNat = c.next.toNat + 1) :
        (next - 1#w).toNat = c.next.toNat := by
      rw [BitVec.toNat_sub_of_le, one, h, Nat.add_sub_cancel]
      rw [BitVec.le_def, one, h]
      exact Nat.le_add_left ..
    constructor
    · intro h
      obtain ⟨next, sum, h⟩ := Option.bind_eq_some_iff.1 h
      obtain ⟨y, read, h⟩ := Option.bind_eq_some_iff.1 h
      cases h
      rw [Word.add?_eq_some_iff, one] at sum
      exact ⟨unread, before sum ▸ read, rfl, rfl, sum⟩
    · rintro ⟨_, read, shared, stop, sum⟩
      have added : Word.add? c.next 1#w = some c'.next := by rw [Word.add?_eq_some_iff, one, sum]
      refine Option.bind_eq_some_iff.2 ⟨c'.next, added, ?_⟩
      refine Option.bind_eq_some_iff.2 ⟨x, before sum ▸ read, ?_⟩
      rw [← shared, ← stop]
      rfl

/-- **Reads all that is left.** -/
def drain (c : Cursor w α) : Option (List α) :=
  match _ : c.advance? with
  | none => none
  | some (none, _) => some []
  | some (some x, c') => do return x :: (← c'.drain)
termination_by c.shared.entries.length - c.next.toNat
decreasing_by
  obtain ⟨_, read, shared, _, next⟩ := advance?_eq_iff.1 ‹_›
  obtain ⟨inside, _⟩ := List.getElem?_eq_some_iff.1 read
  rw [shared, next]
  omega

end Cursor

end Datalog
