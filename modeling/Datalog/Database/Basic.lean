import Datalog.Clause.Rejection
import Datalog.Evaluation.Fixpoint
import Datalog.Function.Builtin
import Datalog.Stratum.Plan

/-!
# Database/Basic — a deductive database

Facts go in one by one, rules as strata; running a database evaluates its strata in the order in
which they were added, each to its fixpoint.  A rejected fact or stratum leaves the facts and the
strata as they are.
-/

namespace Datalog

/-- Who hears the lines about tracked relations. -/
inductive Listener where
  | nobody
  /-- The lines since they were last read, latest first. -/
  | listening (lines : List String)
  /-- Someone who does not listen any more. -/
  | gone
deriving DecidableEq, Inhabited

/-- Passes lines on. -/
def Listener.hear (lines : List String) : Listener → Listener
  | listening earlier => listening (lines ++ earlier)
  | listener => listener

/-- **A database**: its facts, the strata over them in the order in which they run, and what it has
counted so far. -/
structure Database where
  store : Store := ∅
  strata : List Stratum := []
  functions : Functions := Functions.builtin
  settings : Settings := {}
  tracked : List Relation := []
  listing : Listing := .asTheyCome
  listener : Listener := .nobody
  /-- Counted since the settings were last replaced. -/
  counters : Summary := {}
  /-- The clauses whose work was recorded since then. -/
  timed : List String := []
  /-- The number of the next invented variable. -/
  next : Nat := 1

/-- A stratum whose evaluation failed. -/
structure RunError where
  stratum : Nat
  fault : Fault
deriving DecidableEq, Inhabited

/-- The wording, with the number of the stratum. -/
def RunError.message (e : RunError) : String :=
  "Evaluation of stratum " ++ toString e.stratum ++ " failed: " ++ e.fault.message

namespace Database

/-- Replaces the settings and starts counting anew. -/
def withSettings (db : Database) (settings : Settings) : Database :=
  { db with settings, counters := {}, timed := [] }

/-- **Adds a fact**, an atom of values with the right number of arguments; says whether it was
new. -/
def addFact (db : Database) (a : Atom) : Except Rejection (Database × Insertion) :=
  if ¬a.HasArity then .error (.arity a)
  else if a.negated || !a.args.all Term.isValue then .error (.notGround a)
  else
    let (store, insertion) := db.store.add a.relation a.args
    .ok ({ db with store }, insertion)

/-- Adds a stratum that was planned elsewhere; says which number it has. -/
def addPlanned (db : Database) (s : Stratum) : Database × Nat :=
  ({ db with strata := db.strata ++ [s] }, db.strata.length)

/-- **Plans the rules as the next stratum**; says which number it has. -/
def addStratum (db : Database) (rules : List Rule) : Database × Except PlanError Nat :=
  match Stratum.plan db.settings.unification db.functions rules ⟨db.store, db.next⟩ with
  | .ok s state =>
    let (db, number) := { db with store := state.store, next := state.next }.addPlanned s
    (db, .ok number)
  | .error e state => ({ db with store := state.store, next := state.next }, .error e)

/-- Echoes the new tuples of the relation from here on. -/
def track (db : Database) (r : Relation) : Database := { db with tracked := db.tracked.insert r }

/-- The evaluation of a stratum over the facts of the database. -/
def evaluation (db : Database) (s : Stratum) : Evaluation where
  context :=
    { functions := db.functions, settings := db.settings, stratum := s, tracked := db.tracked,
      listing := db.listing }
  world := { store := db.store, counters := db.counters, timed := db.timed }

/-- Takes over what an evaluation has left. -/
def absorb (db : Database) (w : World) : Database :=
  { db with
    store := w.store
    counters := w.counters
    timed := w.timed
    listener := db.listener.hear w.echoed }

/-- Evaluates strata one after the other, the first of them having the number `number`. -/
def runStrata (schedule : Schedule) (budget : Nat) :
    (number : Nat) → List Stratum → Database → Option (Database × Except RunError Unit)
  | _, [], db => some (db, .ok ())
  | number, s :: rest, db => do
    match ← (db.evaluation s).run schedule budget with
    | (e, .ok _) => runStrata schedule budget (number + 1) rest (db.absorb e.world)
    | (e, .error fault) => return (db.absorb e.world, .error ⟨number, fault⟩)

/-- **Evaluates every stratum to its fixpoint**, stopping at the first that fails. -/
def run (schedule : Schedule) (budget : Nat) (db : Database) :
    Option (Database × Except RunError Summary) := do
  match ← runStrata schedule budget 0 db.strata db with
  | (db', .ok _) => return (db', .ok (db'.counters.since db.counters))
  | (db', .error e) => return (db', .error e)

/-- The lines heard since this was last asked, which are then forgotten. -/
def heard (db : Database) : Database × List String :=
  match db.listener with
  | .listening lines => ({ db with listener := .listening [] }, lines)
  | _ => (db, [])

end Database

end Datalog
