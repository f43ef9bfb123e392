import Datalog.Bindings
import Datalog.Clause.Basic
import Datalog.Store.Key

/-!
# Clause/Perform — what the steps do to the bindings

The steps that need no store, and the two halves of a lookup: the key it asks with and what a
tuple it finds binds.  A new binding replaces an old one; nothing is ever unbound.
-/

namespace Datalog

namespace Step

variable (fns : Functions)

/-- Binds the variable to the value of the term. -/
def performAssign (var : Var) (value : Term) (b : Bindings) : Except Abort Bindings :=
  return b.put var (← value.evaluate b fns)

/-- **Compares the values of both sides**, the left one evaluated first. -/
def performCheck (lhs rhs : Term) (negated : Bool) (b : Bindings) : Except Abort Bool := do
  let l ← lhs.evaluate b fns
  let r ← rhs.evaluate b fns
  return decide (l = r) != negated

/-- **Takes the value apart**: the arguments of the expected constructor go to the binders, any
other value, or another number of arguments, is a mismatch. -/
def performDestruct (scrutinee : Term) (symbol : String) (binders : List Var) (b : Bindings) :
    Except Abort (Option Bindings) := do
  match ← scrutinee.evaluate b fns with
  | .ctor f args =>
    if f = symbol ∧ args.length = binders.length then
      return some ((binders.zip args).foldl (fun b e => b.put e.1 e.2) b)
    else return none
  | _ => return none

end Step

namespace Goal

/-- **The lookup key**: the values of the bound arguments, the other positions open. -/
def key (fns : Functions) (b : Bindings) (g : Goal) : Except Abort Key :=
  g.args.mapM fun
    | .bound t => some <$> t.evaluate b fns
    | .free _ | .ignored _ => .ok none

/-- What a tuple binds: the free variables, each to the value at its position. -/
def bind (g : Goal) (tuple : Tuple) (b : Bindings) : Bindings :=
  (g.args.zip tuple).foldl (fun b e =>
    match e.1 with
    | .free v => b.put v e.2
    | _ => b) b

end Goal

end Datalog
