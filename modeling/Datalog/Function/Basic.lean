import Datalog.Assoc
import Datalog.Fault
import Datalog.Term.Basic

/-!
# Function/Basic — the functions a rule may call

A registry maps names to native functions.  A call is checked against the registry before the
function sees its arguments: first the name, then the number of arguments.  A function that is
marked **costly** changes no answer; it asks the planner to hand the work that feeds it out in
small batches.
-/

namespace Datalog

/-- A native function over evaluated arguments. -/
structure Function where
  arity : Nat
  costly : Bool := false
  run : Tuple → Except Abort Term

/-- A registry of functions by name. -/
abbrev Functions := Assoc String Function

/-- Refuses the arguments of the function called `name`. -/
def refuse (name message : String) : Except Abort Term :=
  .error (.fault (.function name message))

namespace Function

/-- A function of one argument. -/
def unary (name : String) (f : Term → Except Abort Term) : Function where
  arity := 1
  run
    | [t] => f t
    | args => .error (.fault (.functionArity name 1 args.length))

/-- A function of two arguments. -/
def binary (name : String) (f : Term → Term → Except Abort Term) : Function where
  arity := 2
  run
    | [s, t] => f s t
    | args => .error (.fault (.functionArity name 2 args.length))

end Function

namespace Functions

/-- **Applies the function called `name`**: an unknown name and a wrong number of arguments are
faults, in this order. -/
def call (fns : Functions) (name : String) (args : Tuple) : Except Abort Term :=
  match fns.get? name with
  | none => .error (.fault (.unknownFunction name))
  | some fn =>
    if fn.arity = args.length then fn.run args
    else .error (.fault (.functionArity name fn.arity args.length))

/-- There is such a function, and calling it is worth batches of its own. -/
def isCostly (fns : Functions) (name : String) : Bool := (fns.get? name).any (·.costly)

end Functions

end Datalog
