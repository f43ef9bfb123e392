import Datalog.Proofs.Evaluation.Work
import Datalog.Proofs.History

/-!
# Proofs/Absence — asking whether a match is there

A negated goal asks whether a stored tuple has the values that it fixes.  A key that fixes every
position is looked for as a tuple, any other one in an index or by a scan; where the tuples of the
relation are as long as the key, the answers are the same (`Store.Built.absence_alike`).  So a goal
with all of its arguments bound and one that ignores some of them are tests of one kind.
-/

namespace Datalog

/-- **Agreement with a tuple of the key's length**: it has every value that the key fixes. -/
theorem Key.agrees_iff_fixed {key : Key} {t : Tuple} (hlen : t.length = key.length) :
    key.agrees t = true ↔ ∀ (p : Nat) (x : Term), key[p]? = some (some x) → t[p]? = some x := by
  rw [Key.agrees_iff]
  constructor
  · intro agrees p x hx
    have inside : p < t.length := hlen ▸ (List.getElem?_eq_some_iff.1 hx).1
    rw [agrees p x t[p] hx (List.getElem?_eq_getElem inside), List.getElem?_eq_getElem inside]
  · intro fixed p x y hx hy
    exact Option.some.inj ((fixed p x hx).symm.trans hy)

/-- **A goal that only tests** goes on exactly if nothing matches, and changes nothing. -/
theorem Work.perform_lookup {cx : Context} {slot : Slot} {g : Goal} {w : Worker} {key : Key}
    (step : slot.step = .lookup g) (hkey : g.key cx.functions w.bindings = .ok key) :
    Work.perform cx slot w = .ok (!w.world.store.hasMatch g.relation key slot.index) w := by
  rw [perform_eq, Slot.perform, step]
  dsimp only
  rw [hkey]
  dsimp only
  by_cases there : w.world.store.hasMatch g.relation key slot.index = true
  · rw [if_pos there, there]
    rfl
  · rw [if_neg there, Bool.eq_false_iff.2 there]
    rfl

namespace Store

variable {s : Store} {r : Relation} {n : Nat}

/-- **Looking for a match is a lookup that finds something**, for a relation whose tuples are as
long as the key. -/
theorem Indexed.lookup_ne_nil_iff (h : s.Indexed) {key : Key} {index : IndexNumber}
    (hlen : ∀ t, s.Holds r t → t.length = key.length) : s.lookup r key index ≠ [] ↔
      ∃ t, s.Holds r t ∧ ∀ (p : Nat) (x : Term), key[p]? = some (some x) → t[p]? = some x := by
  rw [← List.isEmpty_eq_false_iff, List.isEmpty_eq_false_iff_exists_mem]
  refine exists_congr fun t => ?_
  rw [h.mem_lookup_iff]
  exact and_congr_right fun ht => Key.agrees_iff_fixed (hlen t ht)

/-- **Absence is tested in one way.**  In a store that was built by adding and registering, the
membership test, every index and the scan give the same answer to a key as long as the tuples; and a
goal of that length, whichever of its arguments are bound, goes on exactly if no stored tuple has
their values. -/
theorem Built.absence_alike (built : s.Built) (hlen : ∀ t, s.Holds r t → t.length = n) :
    (∀ (key : Key) (index : IndexNumber), key.length = n →
      (s.hasMatch r key index = true ↔ s.lookup r key index ≠ []) ∧
      (s.lookup r key index ≠ [] ↔
        ∃ t, s.Holds r t ∧ ∀ (p : Nat) (x : Term), key[p]? = some (some x) → t[p]? = some x)) ∧
    ∀ (cx : Context) (slot : Slot) (g : Goal) (w : Worker) (key : Key),
      slot.step = .lookup g → g.negated = true → g.relation = r → g.args.length = n →
      w.world.store = s → g.key cx.functions w.bindings = .ok key →
      ∃ goesOn, Work.perform cx slot w = .ok goesOn w ∧ (goesOn = true ↔
        ¬∃ t, s.Holds r t ∧ List.Forall₂ (Arg.Meets w.bindings.get? cx.functions) g.args t) := by
  constructor
  · rintro key index rfl
    have found : s.lookup r key index ≠ [] ↔ _ := built.indexed.lookup_ne_nil_iff hlen
    refine ⟨(built.indexed.hasMatch_iff hlen).trans (Iff.trans ?_ found.symm), found⟩
    exact exists_congr fun t => and_congr_right fun ht => Key.agrees_iff_fixed (hlen t ht)
  · rintro cx slot g w key step - rfl hargs rfl hkey
    have length : key.length = n := (Goal.key_eq_ok_iff.1 hkey).length_eq.symm.trans hargs
    refine ⟨_, Work.perform_lookup step hkey, ?_⟩
    rw [Bool.not_eq_true', ← Bool.not_eq_true,
      built.indexed.hasMatch_iff fun t ht => (hlen t ht).trans length.symm]
    refine not_congr (exists_congr fun t => and_congr_right fun ht => ?_)
    exact Goal.agrees_iff hkey ((hlen t ht).trans hargs.symm)

end Store

/-! ## An example -/

namespace Edges

theorem length_eq_two {t : Tuple} (ht : store.Holds edge t) : t.length = 2 := by
  have listed : (store.extent edge).tuples =
      [[.int 1, .int 2], [.int 2, .int 3], [.int 1, .int 4]] := by cbv
  rw [Store.Holds, listed] at ht
  fin_cases ht <;> rfl

/-- A negated goal for the edges that leave a bound node, wherever they go. -/
def leaving : Goal where
  relation := edge
  args := [.bound (.var ⟨"x", 0⟩), .ignored ⟨"y", 0⟩]
  negated := true

/-- No functions to call, and no rules. -/
def bare : Context where
  functions := ∅
  settings := {}
  stratum := {}
  tracked := []

/-- A worker who has come to the goal with the node 3. -/
def atThree : Worker where
  world := { store }
  bindings := Assoc.ofList [(⟨"x", 0⟩, .int 3)]

/-- An edge that is there is found by the index as well, and the worker goes on because no edge
leaves 3. -/
theorem absent_alike : store.Built ∧ (∀ t, store.Holds edge t → t.length = 2) ∧
    store.hasMatch edge [some (.int 2), some (.int 3)] (some 0) = true ∧
    store.lookup edge [some (.int 2), some (.int 3)] (some 0) ≠ [] ∧
    leaving.key bare.functions atThree.bindings = .ok [some (.int 3), none] ∧
    ∃ goesOn, Work.perform bare { step := .lookup leaving, index := some 0 } atThree =
        .ok goesOn atThree ∧ (goesOn = true ↔ ¬∃ t, store.Holds edge t ∧
          List.Forall₂ (Arg.Meets atThree.bindings.get? bare.functions) leaving.args t) := by
  obtain ⟨keys, goals⟩ := Store.Built.absence_alike built fun _ => length_eq_two
  have there : store.hasMatch edge [some (.int 2), some (.int 3)] (some 0) = true := by cbv
  have hkey : leaving.key bare.functions atThree.bindings = .ok [some (.int 3), none] := rfl
  exact ⟨built, fun _ => length_eq_two, there, (keys _ _ rfl).1.1 there, hkey,
    goals bare { step := .lookup leaving, index := some 0 } leaving atThree _ rfl rfl rfl rfl rfl
      hkey⟩

end Edges

end Datalog
