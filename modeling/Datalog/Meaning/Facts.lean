import Datalog.Store.Basic

/-!
# Meaning/Facts — sets of facts

A set of facts is a predicate, so it may be infinite; a store is one of the finite ones.
-/

namespace Datalog

/-- Which facts hold. -/
abbrev Facts := Relation → Tuple → Prop

namespace Facts

/-- Every fact of `F` is one of `G`. -/
def Within (F G : Facts) : Prop := ∀ r t, F r t → G r t

theorem Within.refl (F : Facts) : F.Within F := fun _ _ h => h

theorem Within.trans {F G H : Facts} (h : F.Within G) (h' : G.Within H) : F.Within H :=
  fun r t ht => h' r t (h r t ht)

end Facts

/-- The facts of a store. -/
def Store.Holds (s : Store) : Facts := fun r t => t ∈ (s.extent r).tuples

end Datalog
