import Datalog.Bindings
import Datalog.Term.Variables

/-!
# Meaning/Value — the value of a term, plainly

The value of a term in an environment, by recursion on the term and with nothing shared: variables
are read, constructors are rebuilt from the values of their arguments, calls are applied to them.
-/

namespace Datalog

/-- What variables stand for. -/
abbrev Env := Var → Option Term

/-- An environment that gives every variable a value. -/
def Env.total (ρ : Var → Term) : Env := fun v => some (ρ v)

namespace Term

mutual

/-- **The value of a term**; of several faults the leftmost, innermost one is raised. -/
def valueIn (env : Env) (fns : Functions) : Term → Except Abort Term
  | .var v =>
    match env v with
    | some t => .ok t
    | none => .error (.fault (.unboundVariable v.text))
  | .lit v => .ok (.lit v)
  | .ctor f args => do return .ctor f (← valuesIn env fns args)
  | .call f args => do fns.call f (← valuesIn env fns args)

/-- The values of an argument list. -/
def valuesIn (env : Env) (fns : Functions) : List Term → Except Abort (List Term)
  | [] => .ok []
  | t :: ts => do return (← valueIn env fns t) :: (← valuesIn env fns ts)

end

theorem valuesIn_eq_mapM (env : Env) (fns : Functions) :
    ∀ ts : List Term, valuesIn env fns ts = ts.mapM (valueIn env fns)
  | [] => rfl
  | t :: ts => by rw [List.mapM_cons, valuesIn, valuesIn_eq_mapM env fns ts]

end Term

end Datalog
