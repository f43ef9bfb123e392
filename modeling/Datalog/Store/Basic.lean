import Datalog.Assoc
import Datalog.Relation
import Datalog.Store.Key
import Datalog.Term.Order

/-!
# Store/Basic — facts and the indices over them

A relation's **extent** is its tuples together with its indices.  An index groups the tuples by
their values at a list of positions, so that a key that fixes those positions is answered from one
group.  An index answers exactly what a scan would; it only changes how the answer is found.
-/

namespace Datalog

/-- A tuple too short for an index: it has no value at `position`. -/
structure Misfit where
  length : Nat
  position : Nat
deriving DecidableEq, Inhabited

/-- The wording, which is that of an access out of bounds. -/
def Misfit.message (m : Misfit) : String :=
  "index out of bounds: the len is " ++ toString m.length ++ " but the index is " ++
    toString m.position

/-- The tuples of a relation, grouped by their values at `positions`. -/
structure Index where
  positions : List Nat
  groups : Assoc Tuple (List Tuple) := ∅

/-- The number of an index of a relation; `none` asks for a scan. -/
abbrev IndexNumber := Option Nat

namespace Index

/-- The values of the tuple at the positions. -/
def project (tuple : Tuple) : List Nat → Except Misfit Tuple
  | [] => .ok []
  | p :: ps =>
    match tuple[p]? with
    | some t => return t :: (← project tuple ps)
    | none => .error ⟨tuple.length, p⟩

/-- The values that the key fixes at the positions, if it fixes all of them. -/
def select? (key : Key) (positions : List Nat) : Option Tuple :=
  positions.mapM fun p => key[p]?.join

/-- **Inserts the tuple**, at the end of the group that its own values say. -/
def insert (index : Index) (tuple : Tuple) : Except Misfit Index := do
  let values ← project tuple index.positions
  return { index with groups := index.groups.alter values fun group => group.getD [] ++ [tuple] }

/-- **An index of the tuples** on the positions: they are inserted one after the other. -/
def build (positions : List Nat) (tuples : List Tuple) : Except Misfit Index :=
  tuples.foldlM (fun index tuple => index.insert tuple) { positions }

end Index

/-- **What a relation holds**: its tuples, in the order in which they came, and the indices over
them. -/
structure Extent where
  tuples : List Tuple := []
  indices : List Index := []

/-- A relation that nobody has mentioned holds nothing. -/
instance : Inhabited Extent := ⟨{}⟩

namespace Extent

/-- **The tuples that agree with the key**: from the index, if it is there and the key fixes all
of its positions, otherwise from a scan. -/
def lookup (e : Extent) (key : Key) (index : IndexNumber) : List Tuple :=
  match index.bind (e.indices[·]?) with
  | some i =>
    match Index.select? key i.positions with
    | some values => ((i.groups.get? values).getD []).filter key.agrees
    | none => e.tuples.filter key.agrees
  | none => e.tuples.filter key.agrees

/-- Adds the tuple to the indices in turn; the first it is too short for ends it. -/
def insertAll (tuple : Tuple) : List Index → List Index × Option Misfit
  | [] => ([], none)
  | i :: is =>
    match i.insert tuple with
    | .error misfit => (i :: is, some misfit)
    | .ok i =>
      let (is, misfit) := insertAll tuple is
      (i :: is, misfit)

end Extent

/-- What became of a tuple that was to be added. -/
inductive Insertion where
  | added
  | present
  /-- It was added, but an index could not take it. -/
  | misfit (misfit : Misfit)
deriving DecidableEq, Inhabited

/-- **A store**: an extent per relation. -/
abbrev Store := Assoc Relation Extent

namespace Store

/-- What the relation holds; a relation that the store does not have holds nothing. -/
def extent (s : Store) (r : Relation) : Extent := (s.get? r).getD {}

/-- Adds a tuple unless it is there. -/
def add (s : Store) (r : Relation) (tuple : Tuple) : Store × Insertion :=
  let e := s.extent r
  if tuple ∈ e.tuples then (s, .present)
  else
    match Extent.insertAll tuple e.indices with
    | (indices, misfit) =>
      (s.put r { tuples := e.tuples ++ [tuple], indices },
        match misfit with
        | none => .added
        | some m => .misfit m)

/-- **An index of the relation on the positions**, the one it has or a new one over the tuples so
far.  No positions need no index. -/
def register (s : Store) (r : Relation) (positions : List Nat) :
    Except Misfit (Store × IndexNumber) :=
  if positions.isEmpty then .ok (s, none)
  else
    let e := s.extent r
    match e.indices.findIdx? (·.positions == positions) with
    | some n => .ok (s, some n)
    | none => do
      let index ← Index.build positions e.tuples
      return (s.put r { e with indices := e.indices ++ [index] }, some e.indices.length)

/-- The tuples of the relation that agree with the key. -/
def lookup (s : Store) (r : Relation) (key : Key) (index : IndexNumber) : List Tuple :=
  (s.extent r).lookup key index

/-- The fact is stored. -/
def contains (s : Store) (r : Relation) (tuple : Tuple) : Bool := tuple ∈ (s.extent r).tuples

/-- **Some tuple agrees with the key.**  A key that fixes every position is looked for as it
stands. -/
def hasMatch (s : Store) (r : Relation) (key : Key) (index : IndexNumber) : Bool :=
  match key.mapM id with
  | some tuple => s.contains r tuple
  | none => !(s.lookup r key index).isEmpty

/-! ## Reading -/

/-- The facts of the relation in increasing order. -/
def facts (s : Store) (r : Relation) : List Tuple := Tuple.sort (s.extent r).tuples

/-- The number of facts of the relation. -/
def count (s : Store) (r : Relation) : Nat := (s.extent r).tuples.length

/-- The number of facts of all relations. -/
def total (s : Store) : Nat := (s.entries.flatMap fun e => e.2.tuples).length

/-- The number of indices of the relation. -/
def indexCount (s : Store) (r : Relation) : Nat := (s.extent r).indices.length

/-- The relations that have been mentioned, by name and then arity. -/
def relations (s : Store) : List Relation :=
  s.keys.mergeSort fun r r' => (r.compareByName r').isLE

/-- The facts of every relation called `name`, merged into one increasing list. -/
def factsNamed (s : Store) (name : String) : List Tuple :=
  Tuple.sort ((s.relations.filter (·.name == name)).flatMap s.facts)

end Store

end Datalog
