import Datalog.Assoc
import Datalog.Function.Basic
import Datalog.Term.Text

/-!
# Bindings — terms for variables

Bindings can be read into a term in two ways.  `substitute` puts the bound terms in place and
leaves the rest of the term as it is.  `evaluate` wants a value: every variable has to be bound,
and every call is made, innermost first and from left to right.  A binding is taken over as it
stands, it is not evaluated once more.
-/

namespace Datalog

/-- Terms for variables, in the order in which the variables were first bound. -/
abbrev Bindings := Assoc Var Term

namespace Term

mutual

/-- The term with its bound variables replaced; calls stay calls. -/
def substitute (b : Bindings) : Term → Term
  | .var v => (b.get? v).getD (.var v)
  | .lit v => .lit v
  | .ctor f args => .ctor f (substituteAll b args)
  | .call f args => .call f (substituteAll b args)

/-- Substitution in each argument. -/
def substituteAll (b : Bindings) : List Term → List Term
  | [] => []
  | t :: ts => t.substitute b :: substituteAll b ts

end

theorem substituteAll_eq_map (b : Bindings) :
    ∀ ts : List Term, substituteAll b ts = ts.map (substitute b)
  | [] => rfl
  | t :: ts => by simp [substituteAll, substituteAll_eq_map b ts]

mutual

/-- **The value of a term, where it differs from the term**: `none` says that there was nothing to
do, so that the caller can keep the term, and the memory, it already has. -/
def reduce? (b : Bindings) (fns : Functions) : Term → Except Abort (Option Term)
  | .var v =>
    match b.get? v with
    | some t => .ok (some t)
    | none => .error (.fault (.unboundVariable v.text))
  | .lit _ => .ok none
  | .ctor f args => do
    match ← copyFrom? b fns [] none args with
    | some args => return some (.ctor f args)
    | none => return none
  | .call f args => do return some (← fns.call f (← reduceAll b fns args))

/-- The arguments of a constructor with their values, unless none of them differs: those `passed`
so far are copied when the first one does. -/
def copyFrom? (b : Bindings) (fns : Functions) (passed : List Term) (copied : Option (List Term)) :
    List Term → Except Abort (Option (List Term))
  | [] => .ok copied
  | t :: ts => do
    let copied := match ← reduce? b fns t, copied with
      | some t', some done => some (done ++ [t'])
      | some t', none => some (passed ++ [t'])
      | none, some done => some (done ++ [t])
      | none, none => none
    copyFrom? b fns (passed ++ [t]) copied ts

/-- The values of the arguments of a call. -/
def reduceAll (b : Bindings) (fns : Functions) : List Term → Except Abort (List Term)
  | [] => .ok []
  | t :: ts => do
    let t' := (← reduce? b fns t).getD t
    return t' :: (← reduceAll b fns ts)

end

/-- **The value of a term** under the bindings. -/
def evaluate (b : Bindings) (fns : Functions) (t : Term) : Except Abort Term := do
  return (← t.reduce? b fns).getD t

end Term

/-- The values of several terms, the first fault winning. -/
def Tuple.evaluate (b : Bindings) (fns : Functions) (ts : Tuple) : Except Abort Tuple :=
  ts.mapM (Term.evaluate b fns)

end Datalog
