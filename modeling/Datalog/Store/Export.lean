import Datalog.Json
import Datalog.Store.Basic

/-!
# Store/Export — facts for other programs

Each term is an object with one field that says what it is, so different terms never export alike.
A store exports as an object with one field a relation name; of several relations with one name
the last one in the order of `Store.relations` is the one that is kept.
-/

namespace Datalog

/-- A variable is an object with its name and its number. -/
def Var.json (v : Var) : Json := .obj [("name", .str v.name), ("id", .int v.number)]

/-- A literal is an object with its sort as its one field. -/
def Value.json : Value → Json
  | .int i => .obj [("Int", .int i.toInt)]
  | .str s => .obj [("Str", .str s)]
  | .bool b => .obj [("Bool", .bool b)]

mutual

/-- **A term is an object with one field**, which says what kind of term it is. -/
def Term.json : Term → Json
  | .var v => .obj [("Var", v.json)]
  | .lit v => .obj [("Lit", v.json)]
  | .ctor f args => .obj [("Ctor", .obj [("symbol", .str f), ("args", .arr (Tuple.jsons args))])]
  | .call f args => .obj [("Call", .obj [("function", .str f), ("args", .arr (Tuple.jsons args))])]

/-- The terms of a tuple, in their order. -/
def Tuple.jsons : Tuple → List Json
  | [] => []
  | t :: ts => t.json :: Tuple.jsons ts

end

/-- A tuple is the array of its terms. -/
def Tuple.json (tuple : Tuple) : Json := .arr (Tuple.jsons tuple)

/-- The name of a kind in an export. -/
def Kind.name : Kind → String
  | .extensional => "Extensional"
  | .bottomUp => "BottomUp"
  | .topDown => "TopDown"

/-- A relation is an object with its three components. -/
def Relation.json (r : Relation) : Json :=
  .obj [("name", .str r.name), ("arity", .int r.arity), ("kind", .str r.kind.name)]

/-- **Every relation name with the facts exported under it.** -/
def Store.exported (s : Store) : Assoc String (List Tuple) :=
  .ofList (s.relations.map fun r => (r.name, s.facts r))

/-- **The store as one object**, with a field for each relation name. -/
def Store.json (s : Store) : Json :=
  .obj (s.exported.entries.map fun e => (e.1, .arr (e.2.map Tuple.json)))

end Datalog
