import Datalog.Database.Basic
import Datalog.Meaning.Renaming

/-!
# Meaning/Session — a database in use

A **session** is what is done to a database over time: facts and strata are added, and all strata
are run, with the order of the tasks in each round and the order in which tuples are listed given
along with the operation.  Every operation has an answer.  Two answers are the **same up to numbering** if they differ, if at all, in the numbers
of invented variables where a rejection or a fault names them.
-/

namespace Datalog

/-! ## Operations -/

/-- **An order of the tasks**: which of those that wait is next, by the number of rounds begun and
of tasks run in this one. -/
abbrev Order := Nat → Nat → Nat

/-- Takes the tasks in the order. -/
def Order.schedule (order : Order) : Schedule := fun agenda =>
  order agenda.world.counters.rounds agenda.finished.length

/-- **What can be done to a database**: a fact or a stratum is added, or all strata are run. -/
inductive Operation where
  | fact (atom : Atom)
  | stratum (rules : List Rule)
  | run (order : Order) (listing : Listing) (budget : Nat)

/-- What the database answers to an operation of the same name. -/
inductive Answer where
  | fact (answer : Except Rejection Insertion)
  | stratum (answer : Except PlanError Nat)
  | run (answer : Except RunError Summary)

namespace Database

/-- The database after the operation, and the answer; `none` if a run was given too small a
budget. -/
def perform (db : Database) : Operation → Option (Database × Answer)
  | .fact a =>
    match db.addFact a with
    | .ok (db', insertion) => some (db', .fact (.ok insertion))
    | .error e => some (db, .fact (.error e))
  | .stratum rules => some ((db.addStratum rules).1, .stratum (db.addStratum rules).2)
  | .run order listing budget =>
    ({ db with listing }.run order.schedule budget).map fun (db', answer) => (db', .run answer)

/-- **A session**: the operations one after the other. -/
def performAll : Database → List Operation → Option (Database × List Answer)
  | db, [] => some (db, [])
  | db, op :: ops => do
    let (db, answer) ← db.perform op
    let (db, answers) ← db.performAll ops
    return (db, answer :: answers)

end Database

/-- The rules have variables numbered below `n` alone. -/
def Operation.Below (n : Nat) : Operation → Prop
  | .stratum rules => ∀ rule ∈ rules, ∀ v ∈ rule.occurrences, v.number < n
  | .fact _ | .run .. => True

/-! ## The same up to numbering -/

/-- **Other numbers for the variables numbered from `n` on**, different ones for different
variables. -/
structure Var.Renumbers (n : Nat) (ρ : Var → Var) : Prop where
  injective : Function.Injective ρ
  name : ∀ v, (ρ v).name = v.name
  fixed : ∀ v, v.number < n → ρ v = v

/-- **The fault with variables renamed**, wherever it names them: in a message, or in the literals
and the rule around it. -/
inductive Fault.RenamedBy (ρ : Var → Var) : Fault → Fault → Prop
  | same (f : Fault) : RenamedBy ρ f f
  | unbound (v : Var) : RenamedBy ρ (.unboundVariable v.text) (.unboundVariable (ρ v).text)
  | step {f f' : Fault} (s : Step) (h : RenamedBy ρ f f') :
      RenamedBy ρ (s.blame f) ((s.rename ρ).blame f')
  | head {f f' : Fault} (d : Head) (h : RenamedBy ρ f f') :
      RenamedBy ρ (d.blame f) ((d.rename ρ).blame f')
  | rule {f f' : Fault} (c : Clause) (h : RenamedBy ρ f f') :
      RenamedBy ρ (.inRule c.text f) (.inRule (c.rename ρ).text f')

/-- The faults are the same up to the numbers of the variables numbered from `n` on. -/
def Fault.Like (n : Nat) (f f' : Fault) : Prop := ∃ ρ, Var.Renumbers n ρ ∧ f.RenamedBy ρ f'

/-- **The answers are the same up to numbering.** -/
inductive Answer.Like (n : Nat) : Answer → Answer → Prop
  | fact (answer : Except Rejection Insertion) : Like n (.fact answer) (.fact answer)
  | planned (number : Nat) : Like n (.stratum (.ok number)) (.stratum (.ok number))
  | rejected {ρ : Var → Var} (e : Rejection) (h : Var.Renumbers n ρ) :
      Like n (.stratum (.error (.rejected e))) (.stratum (.error (.rejected (e.rename ρ))))
  | misfit (m : Misfit) :
      Like n (.stratum (.error (.misfit m))) (.stratum (.error (.misfit m)))
  | finished (summary : Summary) : Like n (.run (.ok summary)) (.run (.ok summary))
  | failed {number : Nat} {f f' : Fault} (h : f.Like n f') :
      Like n (.run (.error ⟨number, f⟩)) (.run (.error ⟨number, f'⟩))

end Datalog
