import Datalog.Clause.Compile

/-!
# Meaning/Renaming — other names for variables

A renaming maps variables to variables; terms, rules, clauses and rejections are renamed variable
by variable.  Two rejections of a rule are the same **up to numbering** if numbering the invented
variables anew, one to one, makes them equal.
-/

namespace Datalog

variable (ρ : Var → Var)

namespace Term

mutual

/-- The term with every variable renamed. -/
def rename : Term → Term
  | .var v => .var (ρ v)
  | .lit v => .lit v
  | .ctor f args => .ctor f (renameAll args)
  | .call f args => .call f (renameAll args)

/-- Renaming in each argument. -/
def renameAll : List Term → List Term
  | [] => []
  | t :: ts => t.rename :: renameAll ts

end

theorem renameAll_eq_map : ∀ ts : List Term, renameAll ρ ts = ts.map (rename ρ)
  | [] => rfl
  | t :: ts => by simp [renameAll, renameAll_eq_map ts]

end Term

/-- Renaming in the arguments of an atom. -/
def Atom.rename (a : Atom) : Atom := { a with args := a.args.map (Term.rename ρ) }

/-- Renaming in a literal. -/
def Literal.rename : Literal → Literal
  | .atom a => .atom (a.rename ρ)
  | .unify l r negated => .unify (l.rename ρ) (r.rename ρ) negated

/-- **A rule under other names**, head and body alike. -/
def Rule.rename (r : Rule) : Rule := ⟨r.head.rename ρ, r.body.map (Literal.rename ρ)⟩

/-- A renamed argument is there for the same as before. -/
def Arg.rename : Arg → Arg
  | .bound t => .bound (t.rename ρ)
  | .free v => .free (ρ v)
  | .ignored v => .ignored (ρ v)

/-- Renaming in the arguments of a goal. -/
def Goal.rename (g : Goal) : Goal := { g with args := g.args.map (Arg.rename ρ) }

/-- Renaming in a step, binders included. -/
def Step.rename : Step → Step
  | .assign v t => .assign (ρ v) (t.rename ρ)
  | .check l r negated => .check (l.rename ρ) (r.rename ρ) negated
  | .destruct t f ys => .destruct (t.rename ρ) f (ys.map ρ)
  | .lookup g => .lookup (g.rename ρ)

/-- Renaming in the arguments of a head. -/
def Head.rename (h : Head) : Head := { h with args := h.args.map (Term.rename ρ) }

/-- **A clause under other names.** -/
def Clause.rename (c : Clause) : Clause := ⟨c.head.rename ρ, c.body.map (Step.rename ρ)⟩

/-- Renaming in the parts of the rule that a rejection shows. -/
def Rejection.rename : Rejection → Rejection
  | .unboundHead r vs => .unboundHead (r.rename ρ) (vs.map ρ)
  | .unsatisfiable r l => .unsatisfiable (r.rename ρ) (l.rename ρ)
  | .unboundDisequation r l => .unboundDisequation (r.rename ρ) (l.rename ρ)
  | .notInvertible r l => .notInvertible (r.rename ρ) (l.rename ρ)
  | .unsafeNegation r a => .unsafeNegation (r.rename ρ) (a.rename ρ)
  | .arity a => .arity (a.rename ρ)
  | .underivableHead r => .underivableHead (r.rename ρ)
  | .topDown r relation => .topDown (r.rename ρ) relation
  | .notGround a => .notGround (a.rename ρ)
  | .indexShape c found => .indexShape (c.rename ρ) found

/-- The variables numbered from `n` on move up by `k`. -/
def Var.shift (n k : Nat) (v : Var) : Var := if n ≤ v.number then ⟨v.name, v.number + k⟩ else v

/-- **The same up to numbering**: the rejections become equal when their variables are renamed one
to one, all but the variables `vs`. -/
def Rejection.Like (vs : List Var) (e e' : Rejection) : Prop :=
  ∃ ρ ρ' : Var → Var, Function.Injective ρ ∧ Function.Injective ρ' ∧
    (∀ v ∈ vs, ρ v = v ∧ ρ' v = v) ∧ e.rename ρ = e'.rename ρ'

end Datalog
