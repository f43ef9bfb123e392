import Datalog.Bindings
import Datalog.Clause.Rejection

/-!
# Clause/Compile — from a rule to its clause

The literals of a rule are taken from left to right, and a **draft** keeps what is known so far:
the steps, the variables they bind, and the terms that variables stand for.  A literal is read
with those terms in place.

* An equation between bound sides is checked.  If one side is bound, the other one is a
  **pattern** for its value: a variable is bound to it, a constructor is taken apart, a call
  cannot be inverted.  If neither is, two constructors are equated argument by argument.
* An atom becomes a goal.  An argument that is neither bound nor a variable the goal meets for the
  first time is replaced by an invented variable, and matched against it afterwards.

Every recursion follows a written term: whatever is inlined is bound, and a bound term is never
taken apart.
-/

namespace Datalog

/-- What becomes of `x = t` once `t` is bound. -/
inductive Unification where
  /-- `x` stands for `t` from here on. -/
  | inline
  /-- `x := t` becomes a step, unless `t` is a variable. -/
  | assign
deriving DecidableEq, Inhabited

/-- A clause in the making; `next` numbers the next invented variable. -/
structure Draft where
  steps : List Step := []
  bound : List Var := []
  inlined : Bindings := ∅
  next : Nat

/-- Compilation of one rule; what was numbered before a rejection stays numbered. -/
abbrev Compile := EStateM Rejection Draft

namespace Compile

/-- The next invented variable. -/
def invent : Compile Var :=
  modifyGet fun d => (Var.fresh d.next, { d with next := d.next + 1 })

/-- One invented variable for each entry. -/
def inventAll (ts : List α) : Compile (List Var) := ts.mapM fun _ => invent

/-- Adds a step at the end; from there on the variables it binds count as bound. -/
def emit (step : Step) : Compile Unit :=
  modify fun d => { d with
    steps := d.steps ++ [step]
    bound := if step.binds then d.bound ++ step.vars else d.bound }

/-- From here on `v` stands for `t`. -/
def inline (v : Var) (t : Term) : Compile Unit :=
  modify fun d => { d with inlined := d.inlined.put v t }

/-- A term as it reads now. -/
def current (t : Term) : Compile Term := return t.substitute (← get).inlined

/-- Every variable of the term is bound by now. -/
def isBound (t : Term) : Compile Bool := return t.isBoundBy (← get).bound

section

variable (rule : Rule) (mode : Unification)

mutual

/-- **Matches the bound term `value` against a pattern with unbound variables**; `literal` is the
equation this comes from. -/
def bindPattern (literal : Literal) (value : Term) : Term → Compile Unit
  | .var v =>
    if mode = .inline ∨ value.asVar?.isSome then inline v value else emit (.assign v value)
  | .ctor f args => do
    let binders ← inventAll args
    emit (.destruct value f binders)
    equateBinders binders args
  | .lit _ | .call .. => throw (.notInvertible rule literal)

/-- Equates each bound variable with the term at its position. -/
def equateBinders : List Var → List Term → Compile Unit
  | y :: ys, t :: ts => do
    let t' ← current t
    if ← isBound t' then emit (.check (.var y) t' false)
    else bindPattern (.unify (.var y) t' false) (.var y) t
    equateBinders ys ts
  | _, _ => pure ()

end

mutual

/-- **Equates two terms.** -/
def equate (l r : Term) : Compile Unit := do
  let l' ← current l
  let r' ← current r
  match ← isBound l', ← isBound r' with
  | true, true => emit (.check l' r' false)
  | false, true => bindPattern rule mode (.unify l' r' false) r' l
  | true, false => bindPattern rule mode (.unify l' r' false) l' r
  | false, false =>
    match l, r with
    | .ctor f as, .ctor g bs =>
      if f = g ∧ as.length = bs.length then equateAll as bs
      else throw (.unsatisfiable rule (.unify l' r' false))
    | _, _ => throw (.notInvertible rule (.unify l' r' false))

/-- Equates two argument lists, position by position. -/
def equateAll : List Term → List Term → Compile Unit
  | l :: ls, r :: rs => do equate l r; equateAll ls rs
  | _, _ => pure ()

end

/-- A disequation only tests, so both sides have to be bound. -/
def distinguish (l r : Term) : Compile Unit := do
  let l' ← current l
  let r' ← current r
  if (← isBound l') && (← isBound r') then emit (.check l' r' true)
  else throw (.unboundDisequation rule (.unify l' r' true))

/-- **What an argument of a goal is there for.**  `seen` holds the unbound variables of the goal
so far; the list holds the equation owed if the argument had to give its place to an invented
variable. -/
def argument (seen : List Var) (t : Term) : Compile (Arg × List Var × List (Var × Term)) := do
  let t' ← current t
  if ← isBound t' then return (.bound t', seen, [])
  match t'.asVar? with
  | some v =>
    if v ∉ seen then
      return (if rule.isSingleton v then .ignored v else .free v, v :: seen, [])
  | none => pure ()
  let y ← invent
  return (.free y, seen, [(y, t)])

/-- The arguments of a goal and the equations owed for them. -/
def arguments (seen : List Var) : List Term → Compile (List Arg × List (Var × Term))
  | [] => return ([], [])
  | t :: ts => do
    let (arg, seen, owed) ← argument rule seen t
    let (args, rest) ← arguments seen ts
    return (arg :: args, owed ++ rest)

/-- **An atom becomes a goal**, followed by the equations for the arguments it had to give up. -/
def search (delta : Bool) (a : Atom) : Compile Unit := do
  let a' := { a with args := ← a.args.mapM current }
  unless a.HasArity do throw (.arity a')
  if a.relation.kind = .topDown then throw (.topDown rule a.relation)
  let (args, rest) ← arguments rule [] a.args
  if a.negated && args.any Arg.isFree then throw (.unsafeNegation rule a')
  emit (.lookup { relation := a.relation, args, negated := a.negated, delta })
  equateBinders rule mode (rest.map Prod.fst) (rest.map Prod.snd)

/-- A literal of the body; `delta` says whether an atom reads the newly derived tuples. -/
def literal (delta : Bool) : Literal → Compile Unit
  | .atom a => search rule mode delta a
  | .unify l r false => equate rule mode l r
  | .unify l r true => distinguish rule l r

/-- The head, once the body is done: all of its variables have to be bound. -/
def head : Compile Head := do
  let args ← rule.head.args.mapM current
  let bound := (← get).bound
  let unbound := ((args.flatMap Term.vars).filter (!bound.contains ·)).eraseDups
  unless unbound.isEmpty do throw (.unboundHead rule unbound)
  return ⟨rule.head.relation, args⟩

/-- A head that can be derived, then the body in order, then the head's terms; the atom at position
`delta` reads the newly derived tuples. -/
def clause (delta : Option Nat) : Compile Clause := do
  unless rule.head.HasArity do throw (.arity rule.head)
  if rule.head.relation.kind ≠ .bottomUp ∨ rule.head.negated then throw (.underivableHead rule)
  rule.body.zipIdx.forM fun (l, i) => literal rule mode (delta = some i) l
  let head ← head rule
  return ⟨head, (← get).steps⟩

end

end Compile

/-- **The clause of a rule.**  The state is the number of the next invented variable. -/
def Rule.compile (mode : Unification) (delta : Option Nat) (rule : Rule) :
    EStateM Rejection Nat Clause := fun next =>
  match Compile.clause rule mode delta { next } with
  | .ok clause draft => .ok clause draft.next
  | .error rejection draft => .error rejection draft.next

end Datalog
