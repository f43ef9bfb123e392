import Datalog.Agenda.Basic

/-!
# Agenda/Job — agendas of finite trees

A **job** puts its children on the agenda and then ends, well or with a fault or a crash.  The
whole of a forest of jobs runs, whatever the order and however they end.
-/

namespace Datalog

/-- **A job**: how it ends, and the jobs that it makes before that. -/
inductive Job where
  | node (ending : Except Abort Unit) (children : List Job)

namespace Job

/-- How the job ends. -/
def ending : Job → Except Abort Unit
  | node e _ => e

/-- The jobs that it makes, in the order in which it makes them. -/
def children : Job → List Job
  | node _ js => js

mutual

/-- The number of jobs in the tree. -/
def size : Job → Nat
  | node _ js => sizeAll js + 1

/-- The number of jobs in a forest. -/
def sizeAll : List Job → Nat
  | [] => 0
  | j :: js => j.size + sizeAll js

end

/-- A job makes its children and ends; there is no world for it to change. -/
def run : Behaviour Job Unit := fun _ job _ =>
  { world := (), spawned := job.children.reverse, result := job.ending }

/-- **Runs a forest**, with a budget that is always enough. -/
def runAll (policy : Policy Job Unit) (jobs : List Job) : Option (Agenda Job Unit) :=
  Agenda.drain run policy (sizeAll jobs) { world := (), waiting := jobs.reverse }

end Job

end Datalog
