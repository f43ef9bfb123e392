import Mathlib
import Datalog.Term.Order

/-!
# Proofs/Order — the order of terms is a strict total order

The four comparisons, of variables, of literals, of terms and of argument lists, are transitive and
call two things equal exactly if they are.  Each compares by a first difference, so each is a chain
of `Ordering.then`: what such a chain needs of its first link is stated once (`then_lt`), and the
mutual recursion of terms and argument lists becomes an induction on terms.  A list of tuples is
therefore sorted in one way only (`Tuple.sort_congr`).
-/

namespace Datalog

/-! ## Chains of comparisons -/

section Chain

variable {α : Type*} {cmp : α → α → Ordering} {a b c : α} {p q r : Ordering}

/-- **Transitivity of a chain** from that of its first link, which decides equality, and that of
the rest. -/
theorem then_lt (lawful : ∀ x y, cmp x y = .eq ↔ x = y)
    (first : cmp a b = .lt → cmp b c = .lt → cmp a c = .lt)
    (rest : p = .lt → q = .lt → r = .lt)
    (hab : (cmp a b).then p = .lt) (hbc : (cmp b c).then q = .lt) :
    (cmp a c).then r = .lt := by
  rw [Ordering.then_eq_lt, lawful] at *
  obtain hab | ⟨rfl, hp⟩ := hab
  · obtain hbc | ⟨rfl, _⟩ := hbc
    · exact .inl (first hab hbc)
    · exact .inl hab
  · exact hbc.imp_right fun ⟨hac, hq⟩ => ⟨hac, rest hp hq⟩

/-- A comparison is transitive once it decides equality, can be turned round and composes. -/
theorem transCmp_of_lt (swap : ∀ x y, cmp x y = (cmp y x).swap)
    (lawful : ∀ x y, cmp x y = .eq ↔ x = y)
    (trans : ∀ x y z, cmp x y = .lt → cmp y z = .lt → cmp x z = .lt) : Std.TransCmp cmp where
  eq_swap := swap _ _
  isLE_trans {x y z} hxy hyz := by
    rw [Ordering.isLE_iff_eq_lt_or_eq_eq, lawful] at *
    obtain hxy | rfl := hxy
    · obtain hyz | rfl := hyz
      · exact .inl (trans x y z hxy hyz)
      · exact .inl hxy
    · exact hyz

theorem lawfulEqCmp_of_iff (lawful : ∀ x y, cmp x y = .eq ↔ x = y) : Std.LawfulEqCmp cmp where
  compare_self := (lawful _ _).2 rfl
  eq_of_compare := (lawful _ _).1

end Chain

theorem compare_eq_iff {α : Type*} [Ord α] [Std.LawfulEqOrd α] (x y : α) :
    Ord.compare x y = .eq ↔ x = y :=
  Std.LawfulEqCmp.compare_eq_iff_eq

/-! ## Variables and literals -/

/-- Variables are ordered by two of their components, one after the other. -/
instance Var.transCmp : Std.TransCmp Var.compare :=
  inferInstanceAs (Std.TransCmp (compareLex (compareOn Var.name) (compareOn Var.number)))

theorem Var.compare_swap (v w : Var) : v.compare w = (w.compare v).swap :=
  Std.OrientedCmp.eq_swap

theorem Var.compare_eq_eq_iff (v w : Var) : v.compare w = .eq ↔ v = w := by
  cases v
  cases w
  simp [Var.compare, Ordering.then_eq_eq]

/-- Only equal variables compare as equal. -/
instance Var.lawfulEqCmp : Std.LawfulEqCmp Var.compare := lawfulEqCmp_of_iff compare_eq_eq_iff

theorem Value.compare_eq_eq_iff (v w : Value) : v.compare w = .eq ↔ v = w := by
  cases v <;> cases w <;> simp [Value.compare]

theorem Value.compare_swap (v w : Value) : v.compare w = (w.compare v).swap := by
  cases v <;> cases w <;> first | exact Std.OrientedOrd.eq_swap | rfl

/-- Within a sort the literals are compared as such, and the sorts are in order themselves. -/
theorem Value.compare_lt_trans (u v w : Value) (huv : u.compare v = .lt)
    (hvw : v.compare w = .lt) : u.compare w = .lt := by
  cases u <;> cases v <;> cases w <;> simp only [Value.compare, reduceCtorEq] at *
  all_goals exact Std.TransCmp.lt_trans huv hvw

/-- Literals are in a total order. -/
instance Value.transCmp : Std.TransCmp Value.compare :=
  transCmp_of_lt compare_swap compare_eq_eq_iff compare_lt_trans

/-- Only equal literals compare as equal. -/
instance Value.lawfulEqCmp : Std.LawfulEqCmp Value.compare := lawfulEqCmp_of_iff compare_eq_eq_iff

/-! ## Terms and argument lists

Each property of argument lists is first shown for lists whose terms have it; the induction on
terms then needs no more than that. -/

namespace Tuple

variable {ss ts us : Tuple}

theorem compare_eq_eq_iff_of (h : ∀ s ∈ ss, ∀ t, s.compare t = .eq ↔ s = t) :
    Tuple.compare ss ts = .eq ↔ ss = ts := by
  induction ss generalizing ts with
  | nil => cases ts <;> simp [Tuple.compare]
  | cons s ss ih =>
    cases ts with
    | nil => simp [Tuple.compare]
    | cons t ts =>
      obtain ⟨head, tail⟩ := List.forall_mem_cons.1 h
      rw [Tuple.compare, Ordering.then_eq_eq, head, ih tail, List.cons.injEq]

theorem compare_swap_of (h : ∀ s ∈ ss, ∀ t, s.compare t = (t.compare s).swap) :
    Tuple.compare ss ts = (Tuple.compare ts ss).swap := by
  induction ss generalizing ts with
  | nil => cases ts <;> simp [Tuple.compare]
  | cons s ss ih =>
    cases ts with
    | nil => simp [Tuple.compare]
    | cons t ts =>
      obtain ⟨head, tail⟩ := List.forall_mem_cons.1 h
      rw [Tuple.compare, Tuple.compare, Ordering.swap_then, ← head, ← ih tail]

end Tuple

namespace Term

theorem compare_eq_eq_iff (s t : Term) : s.compare t = .eq ↔ s = t := by
  induction s generalizing t with
  | var v => cases t <;> simp [Term.compare]
  | lit v => cases t <;> simp [Term.compare]
  | ctor f args ih | call f args ih =>
    cases t <;> simp [Term.compare, Ordering.then_eq_eq, Tuple.compare_eq_eq_iff_of ih]

theorem compare_swap (s t : Term) : s.compare t = (t.compare s).swap := by
  induction s generalizing t with
  | var v => cases t <;> first | exact Var.compare_swap .. | rfl
  | lit v => cases t <;> first | exact Value.compare_swap .. | rfl
  | ctor f args ih | call f args ih =>
    cases t <;> simp only [Term.compare, Ordering.swap_lt, Ordering.swap_gt]
    rw [Ordering.swap_then, ← Tuple.compare_swap_of ih, ← Std.OrientedOrd.eq_swap]

end Term

namespace Tuple

variable {ss ts us : Tuple}

theorem compare_lt_trans_of
    (h : ∀ s ∈ ss, ∀ t u, s.compare t = .lt → t.compare u = .lt → s.compare u = .lt)
    (hst : Tuple.compare ss ts = .lt) (htu : Tuple.compare ts us = .lt) :
    Tuple.compare ss us = .lt := by
  induction ss generalizing ts us with
  | nil =>
    cases us with
    | nil => cases ts <;> simp [Tuple.compare] at hst htu
    | cons u us => rfl
  | cons s ss ih =>
    cases ts with
    | nil => simp [Tuple.compare] at hst
    | cons t ts =>
      cases us with
      | nil => simp [Tuple.compare] at htu
      | cons u us =>
        obtain ⟨head, tail⟩ := List.forall_mem_cons.1 h
        rw [Tuple.compare] at *
        exact then_lt Term.compare_eq_eq_iff (head t u) (ih tail) hst htu

end Tuple

namespace Term

theorem compare_lt_trans (s t u : Term) (hst : s.compare t = .lt) (htu : t.compare u = .lt) :
    s.compare u = .lt := by
  induction s generalizing t u with
  | var v =>
    cases t <;> cases u <;> simp only [Term.compare, reduceCtorEq] at *
    exact Std.TransCmp.lt_trans hst htu
  | lit v =>
    cases t <;> cases u <;> simp only [Term.compare, reduceCtorEq] at *
    exact Std.TransCmp.lt_trans hst htu
  | ctor f args ih | call f args ih =>
    cases t <;> cases u <;> simp only [Term.compare, reduceCtorEq] at *
    exact then_lt compare_eq_iff Std.TransCmp.lt_trans (Tuple.compare_lt_trans_of ih) hst htu

/-- **Terms are in a total order.** -/
instance transCmp : Std.TransCmp Term.compare :=
  transCmp_of_lt compare_swap compare_eq_eq_iff compare_lt_trans

/-- Only equal terms compare as equal. -/
instance lawfulEqCmp : Std.LawfulEqCmp Term.compare := lawfulEqCmp_of_iff compare_eq_eq_iff

end Term

namespace Tuple

theorem compare_eq_eq_iff (ss ts : Tuple) : Tuple.compare ss ts = .eq ↔ ss = ts :=
  compare_eq_eq_iff_of fun s _ => s.compare_eq_eq_iff

/-- **Tuples are in a total order.** -/
instance transCmp : Std.TransCmp Tuple.compare :=
  transCmp_of_lt (fun _ _ => compare_swap_of fun s _ => s.compare_swap) compare_eq_eq_iff
    fun _ _ _ => compare_lt_trans_of fun s _ => s.compare_lt_trans

/-- Only equal tuples compare as equal. -/
instance lawfulEqCmp : Std.LawfulEqCmp Tuple.compare := lawfulEqCmp_of_iff compare_eq_eq_iff

/-! ## Sorting -/

variable {tuples tuples' : List Tuple}

theorem sort_perm (tuples : List Tuple) : (sort tuples).Perm tuples := List.mergeSort_perm ..

theorem sort_pairwise (tuples : List Tuple) :
    (sort tuples).Pairwise fun s t => (Tuple.compare s t).isLE := by
  refine List.pairwise_mergeSort (fun s t u => Std.TransCmp.isLE_trans) (fun s t => ?_) tuples
  have swap : Tuple.compare t s = (Tuple.compare s t).swap := Std.OrientedCmp.eq_swap
  rw [swap]
  cases Tuple.compare s t <;> rfl

/-- **What is sorted does not matter, only how often each tuple is in it.** -/
theorem sort_congr (same : tuples.Perm tuples') : sort tuples = sort tuples' := by
  refine List.Perm.eq_of_pairwise (fun s t _ _ hst hts => ?_) (sort_pairwise tuples)
    (sort_pairwise tuples') (((sort_perm tuples).trans same).trans (sort_perm tuples').symm)
  exact Std.LawfulEqCmp.eq_of_compare (Std.OrientedCmp.isLE_antisymm hst hts)

/-- **Distinct tuples are sorted strictly.** -/
theorem sort_strict (distinct : tuples.Nodup) :
    (sort tuples).Pairwise fun s t => Tuple.compare s t = .lt := by
  have nodup : (sort tuples).Nodup := (sort_perm tuples).nodup_iff.2 distinct
  refine ((sort_pairwise tuples).and nodup).imp fun {s t} ⟨le, ne⟩ => ?_
  exact (Ordering.isLE_iff_eq_lt_or_eq_eq.1 le).resolve_right (ne ∘ (compare_eq_eq_iff s t).1)

end Tuple

end Datalog
