/-!
# Fault — what can go wrong while rules run

A **fault** is an error that evaluation reports: it names a cause, possibly inside the literal and
the rule that were being evaluated.  A native function may also **crash**, which is not an answer
of its own: outside an agenda of tasks nothing catches it, inside one it becomes a `panicked`
fault.
-/

namespace Datalog

/-- **A fault**: its cause, or another fault with the literal or the rule that it happened in. -/
inductive Fault where
  /-- A variable without a binding stood where a value was needed. -/
  | unboundVariable (name : String)
  | unknownFunction (name : String)
  | functionArity (name : String) (expected found : Nat)
  /-- A function refused its arguments. -/
  | function (name message : String)
  | solver (message : String)
  /-- The solver gave up on a formula whose verdict was needed. -/
  | solverUnknown (formula : String)
  | panicked (message : String)
  | scheduler (message : String)
  | inLiteral (literal : String) (cause : Fault)
  | inRule (rule : String) (cause : Fault)
deriving DecidableEq, Inhabited

namespace Fault

/-- The fault with the literals and rules around it taken off. -/
def root : Fault → Fault
  | inLiteral _ cause | inRule _ cause => cause.root
  | fault => fault

/-- The wording, with the outermost context first. -/
def message : Fault → String
  | unboundVariable name => "Variable " ++ name ++ " is unbound"
  | unknownFunction name => "Unknown function: " ++ name
  | functionArity name expected found =>
    "Function " ++ name ++ " expects " ++ toString expected ++ " arguments, got " ++ toString found
  | function name message => "Function " ++ name ++ " failed: " ++ message
  | solver message => "Solver error: " ++ message
  | solverUnknown formula => "Solver returned unknown for: " ++ formula
  | panicked message => "Task panicked: " ++ message
  | scheduler message => "Scheduler error: " ++ message
  | inLiteral literal cause =>
    "Exception raised while evaluating the literal: " ++ literal ++ "\n\n" ++ cause.message
  | inRule rule cause =>
    "Exception raised while evaluating the rule:\n" ++ rule ++ "\n\n" ++ cause.message

end Fault

/-- **How an evaluation stops early**: with a fault, or by a crash that may carry a message. -/
inductive Abort where
  | fault (fault : Fault)
  | crash (message : Option String)
deriving DecidableEq, Inhabited

namespace Abort

/-- Puts context around a fault; a crash has none. -/
def within (context : Fault → Fault) : Abort → Abort
  | fault f => fault (context f)
  | crash message => crash message

/-- **The fault an agenda records**: a crash counts as a panic. -/
def toFault : Abort → Fault
  | fault f => f
  | crash message => .panicked (message.getD "unknown panic payload")

end Abort

end Datalog
