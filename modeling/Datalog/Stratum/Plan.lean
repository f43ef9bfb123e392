import Datalog.Clause.Compile
import Datalog.Stratum.Basic

/-!
# Stratum/Plan — from rules to a stratum

Every rule becomes a base clause.  For each positive atom of its body over a relation that the
stratum derives, it also becomes a recursive clause in which that atom reads the newly derived
tuples; the atom goes to the front if the rest of the body compiles that way, and otherwise stays
where it is.  Planning registers in the store the indices that the lookups want.
-/

namespace Datalog

/-- Why planning stopped: a rule is refused, or a stored tuple does not fit an index. -/
inductive PlanError where
  | rejected (rejection : Rejection)
  | misfit (misfit : Misfit)
deriving DecidableEq, Inhabited

/-- What planning works on; an error leaves it as far as it got. -/
structure PlanState where
  store : Store
  /-- The number of the next invented variable. -/
  next : Nat

/-- A part of planning, which goes on from what the parts before it have registered and numbered. -/
abbrev Plan := EStateM PlanError PlanState

namespace Plan

/-- Compiles a rule. -/
def compile (mode : Unification) (delta : Option Nat) (rule : Rule) : Plan Clause := fun state =>
  match rule.compile mode delta state.next with
  | .ok clause next => .ok clause { state with next }
  | .error rejection next => .error (.rejected rejection) { state with next }

/-- The index a goal is looked up with: one on its bound positions. -/
def register (g : Goal) : Plan IndexNumber := fun state =>
  match state.store.register g.relation g.boundPositions with
  | .ok (store, index) => .ok index { state with store }
  | .error misfit => .error (.misfit misfit) state

/-- The index of a step; only a lookup in the store has one. -/
def indexOf : Step → Plan IndexNumber
  | .lookup g => if g.delta then return none else register g
  | _ => return none

/-- **Small batches pay off** at a lookup if something costly is called after it. -/
def wantsSplit (fns : Functions) (head : Head) (step : Step) (rest : List Step) : Bool :=
  step.positiveGoal?.isSome &&
    (rest.any (Step.mentions fns.isCostly) || head.args.any (Term.mentions fns.isCostly))

/-- The slots of a clause, from left to right. -/
def slots (fns : Functions) (head : Head) : List Step → Plan (List Slot)
  | [] => return []
  | step :: rest => do
    let index ← indexOf step
    let slots ← slots fns head rest
    return ⟨step, index, wantsSplit fns head step rest⟩ :: slots

/-- The clause with its indices and marks. -/
def index (fns : Functions) (clause : Clause) : Plan PlannedClause :=
  return ⟨clause.head, ← slots fns clause.head clause.body⟩

/-- **The recursive clause of a rule for the atom at `i`.** -/
def deltaClause (mode : Unification) (rule : Rule) (i : Nat) (atom : Literal) : Plan Clause :=
  try compile mode (some 0) { rule with body := atom :: rule.body.eraseIdx i }
  catch _ => compile mode (some i) rule

/-- The stratum with the clauses of one more rule; `heads` are the relations that it derives. -/
def addRule (mode : Unification) (fns : Functions) (heads : List Relation) (stratum : Stratum)
    (rule : Rule) : Plan Stratum := do
  let base ← index fns (← compile mode none rule)
  rule.body.zipIdx.foldlM (fun stratum (l, i) => do
    match l with
    | .atom a =>
      if a.negated || !heads.contains a.relation then return stratum
      else return stratum.addRecursive a.relation (← index fns (← deltaClause mode rule i l))
    | .unify .. => return stratum) { stratum with base := stratum.base ++ [base] }

end Plan

/-- **Plans the rules of a stratum**; the relations it derives are those of the heads. -/
def Stratum.plan (mode : Unification) (fns : Functions) (rules : List Rule) : Plan Stratum :=
  rules.foldlM (Plan.addRule mode fns (rules.map (·.head.relation))) {}

end Datalog
