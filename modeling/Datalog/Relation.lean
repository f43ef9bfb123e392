/-!
# Relation — the names of facts

A relation is identified by its name, its arity and its kind together: two relations that differ in
one of the three have nothing to do with each other.
-/

namespace Datalog

/-- How the facts of a relation come about. -/
inductive Kind where
  /-- Supplied, never derived. -/
  | extensional
  /-- Derived from below by the rules. -/
  | bottomUp
  /-- Meant for goal-directed evaluation, which rules here cannot do. -/
  | topDown
deriving DecidableEq, Inhabited

/-- Kinds in the order in which they are declared. -/
def Kind.compare (k l : Kind) : Ordering := Ord.compare k.ctorIdx l.ctorIdx

/-- **A relation**: a name, a number of arguments and where its facts come from. -/
structure Relation where
  name : String
  arity : Nat
  kind : Kind
deriving DecidableEq, Inhabited

namespace Relation

/-- By name, then arity, then kind. -/
def compare (r s : Relation) : Ordering :=
  (Ord.compare r.name s.name).then
    ((Ord.compare r.arity s.arity).then (r.kind.compare s.kind))

/-- The order in which a store lists its relations: by name, then arity. -/
def compareByName (r s : Relation) : Ordering :=
  (Ord.compare r.name s.name).then (Ord.compare r.arity s.arity)

/-- The facts of the relation are supplied. -/
def isExtensional (r : Relation) : Bool := r.kind == .extensional

/-- The facts of the relation are derived, or would be. -/
def isIntensional (r : Relation) : Bool := !r.isExtensional

end Relation

end Datalog
