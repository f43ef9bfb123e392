import Datalog.Store.Export

/-!
# Meaning/Import — facts from an export

What another program makes of an export.  A field is looked up by its name, whatever the order of
the fields; a term is read off the one field that says what it is; and what is not of the form of
an export is not read.
-/

namespace Datalog

namespace Json

/-- The value of an object's field. -/
def field? (name : String) : Json → Option Json
  | .obj fields => Assoc.find name fields
  | _ => none

/-- The literal that is exported so; a number is read as a word. -/
def value? : Json → Option Value
  | .obj [("Int", .int n)] => some (.int (.ofInt n))
  | .obj [("Str", .str s)] => some (.str s)
  | .obj [("Bool", .bool b)] => some (.bool b)
  | _ => none

mutual

/-- **The term that is exported so.** -/
def term? : Json → Option Term
  | .obj [("Var", .obj [("name", .str name), ("id", .int n)])] => some (.var ⟨name, n.toNat⟩)
  | .obj [("Lit", v)] => v.value?.map .lit
  | .obj [("Ctor", .obj [("symbol", .str f), ("args", .arr items)])] => (terms? items).map (.ctor f)
  | .obj [("Call", .obj [("function", .str f), ("args", .arr items)])] =>
    (terms? items).map (.call f)
  | _ => none

/-- The terms of an array, if each of its items is one. -/
def terms? : List Json → Option (List Term)
  | [] => some []
  | j :: js => do return (← j.term?) :: (← terms? js)

end

/-- The tuple that is exported so. -/
def tuple? : Json → Option Tuple
  | .arr items => terms? items
  | _ => none

/-- **The tuples exported under a name.** -/
def tuples? (name : String) (j : Json) : Option (List Tuple) :=
  match j.field? name with
  | some (.arr items) => items.mapM tuple?
  | _ => none

end Json

end Datalog
