import Datalog.Clause.Compile

/-!
# Meaning/Queue — compilation from a queue

Compilation follows the terms that a rule writes.  It can also be run from a **queue** of literals:
a turn takes the first one, as it reads by then, turns it into at most one step, and puts the
equations that it leaves in front of the others.  What is queued is no part of the rule any more.
The terms of an equation are taken as they read when it is queued, and read once more when its turn
comes, so that they can be larger than any term that the rule writes.  Between two turns a run is at
a **point**, and the points that it comes to are those that `Reaches` lists.
-/

namespace Datalog

namespace Term

mutual

/-- The number of nodes of a term. -/
def nodes : Term → Nat
  | .var _ | .lit _ => 1
  | .ctor _ args | .call _ args => nodesOf args + 1

/-- The number of nodes of a list of terms. -/
def nodesOf : List Term → Nat
  | [] => 0
  | t :: ts => t.nodes + nodesOf ts

end

end Term

/-- The number of nodes of the terms that a literal writes. -/
def Literal.nodes : Literal → Nat
  | .atom a => Term.nodesOf a.args
  | .unify l r _ => l.nodes + r.nodes

namespace Compile

/-- The equations of terms at the same positions, as they are queued. -/
def equations (ls rs : List Term) : List (Literal × Bool) :=
  List.zipWith (fun l r => (.unify l r false, false)) ls rs

section

variable (rule : Rule) (mode : Unification)

/-- Matches the bound term `value` against a pattern with unbound variables, down to its
arguments. -/
def turnPattern (literal : Literal) (value : Term) : Term → Compile (List (Literal × Bool))
  | .var v => do
    if mode = .inline ∨ value.asVar?.isSome then inline v value else emit (.assign v value)
    return []
  | .ctor f args => do
    let binders ← inventAll args
    emit (.destruct value f binders)
    return equations (binders.map .var) args
  | .lit _ | .call .. => throw (.notInvertible rule literal)

/-- Equates two terms down to their arguments. -/
def turnEquation (l r : Term) : Compile (List (Literal × Bool)) := do
  match ← isBound l, ← isBound r with
  | true, true =>
    emit (.check l r false)
    return []
  | false, true => turnPattern rule mode (.unify l r false) r l
  | true, false => turnPattern rule mode (.unify l r false) l r
  | false, false =>
    match l, r with
    | .ctor f as, .ctor g bs =>
      if f = g ∧ as.length = bs.length then return equations as bs
      else throw (.unsatisfiable rule (.unify l r false))
    | _, _ => throw (.notInvertible rule (.unify l r false))

/-- An atom becomes a goal. -/
def turnAtom (delta : Bool) (a : Atom) : Compile (List (Literal × Bool)) := do
  unless a.HasArity do throw (.arity a)
  if a.relation.kind = .topDown then throw (.topDown rule a.relation)
  let (args, owed) ← arguments rule [] a.args
  if a.negated && args.any Arg.isFree then throw (.unsafeNegation rule a)
  emit (.lookup { relation := a.relation, args, negated := a.negated, delta })
  return equations (owed.map fun e => .var e.1) (owed.map Prod.snd)

/-- **One turn**: the literal as it reads now becomes at most one step, and leaves equations. -/
def turn : Literal × Bool → Compile (List (Literal × Bool))
  | (.atom a, delta) => do turnAtom rule delta { a with args := ← a.args.mapM current }
  | (.unify l r false, _) => do turnEquation rule mode (← current l) (← current r)
  | (.unify l r true, _) => do
    distinguish rule l r
    return []

/-- **The queue is emptied** in so many turns at most, or else there is no result. -/
def drain : (turns : Nat) → List (Literal × Bool) → Draft →
    Option (EStateM.Result Rejection Draft Unit)
  | _, [], d => some (.ok () d)
  | 0, _ :: _, _ => none
  | turns + 1, e :: queue, d =>
    match turn rule mode e d with
    | .ok owed d => drain turns (owed ++ queue) d
    | .error r d => some (.error r d)

/-- **A point between two turns**: what is queued, and the draft. -/
structure Point where
  queue : List (Literal × Bool)
  draft : Draft

/-- **The points that a run comes to** after the first one. -/
inductive Reaches (p : Point) : Point → Prop
  | refl : Reaches p p
  | turn {e : Literal × Bool} {queue owed : List (Literal × Bool)} {d d' : Draft}
      (h : Reaches p ⟨e :: queue, d⟩) (taken : turn rule mode e d = .ok owed d') :
      Reaches p ⟨owed ++ queue, d'⟩

end

end Compile

end Datalog
