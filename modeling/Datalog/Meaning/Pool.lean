import Datalog.Agenda.Job
import Mathlib.Logic.Relation

/-!
# Meaning/Pool — jobs that run side by side

An agenda runs one job after the other.  In a **pool** any number of jobs are under way at once.  A
job is started once, puts its children into the queue one by one, and ends when all are there.  One
that fails makes two moves of it: it keeps its fault, unless one is kept already, and then it raises
the flag that the other jobs look at.  Between two moves of a job the others make theirs, so a child
may end before the job that made it, and what a job sees of the flag is what is there at that moment.
-/

namespace Datalog

namespace Job

mutual

/-- **The jobs of the tree**, each as often as it occurs. -/
def nodes : Job → List Job
  | node ending js => node ending js :: nodesAll js

/-- The jobs of a forest. -/
def nodesAll : List Job → List Job
  | [] => []
  | j :: js => j.nodes ++ nodesAll js

end

/-- The fault that the job ends with. -/
def fault? (j : Job) : Option Fault :=
  match j.ending with
  | .ok _ => none
  | .error abort => some abort.toFault

/-- **What the jobs of a forest come to**: each of them has run once, in the order in which they are
listed, the latest first, and the result is that of the first that has failed. -/
structure Settles (jobs finished : List Job) (result : Except Fault Unit) : Prop where
  once : finished.Perm (nodesAll jobs)
  ok_iff : result = .ok () ↔ ∀ j ∈ nodesAll jobs, j.ending = .ok ()
  error_iff : ∀ f, result = .error f ↔ ∃ later j earlier, finished = later ++ j :: earlier ∧
    j.fault? = some f ∧ ∀ i ∈ earlier, i.ending = .ok ()

end Job

/-- **What the jobs of a group share about failure**: the first fault, and a flag. -/
structure FaultSlot where
  first : Option Fault := none
  raised : Bool := false

namespace FaultSlot

/-- Keeps the fault, unless there is one. -/
def keep (s : FaultSlot) (f : Fault) : FaultSlot := { s with first := s.first <|> some f }

/-- Raises the flag; a fault that is kept stays as it is. -/
def raise (s : FaultSlot) : FaultSlot := { s with raised := true }

/-- The result of the group. -/
def take (s : FaultSlot) : Except Fault Unit :=
  match s.first with
  | some fault => .error fault
  | none => .ok ()

end FaultSlot

/-- How far a job has come. -/
inductive Stage where
  /-- It has these children still to make. -/
  | making (children : List Job)
  /-- Its fault is kept, but the flag not yet raised. -/
  | failing

/-- A pool and everything in it. -/
structure Pool where
  /-- The jobs that are still to be put into the queue from outside. -/
  seeds : List Job
  queued : List Job := []
  /-- The jobs under way, in no order. -/
  running : List (Job × Stage) := []
  /-- The jobs that have ended, in the order in which they told how; latest first. -/
  finished : List Job := []
  slot : FaultSlot := {}

namespace Pool

/-- **One move** of someone in the pool. -/
inductive Step : Pool → Pool → Prop
  | seed {p : Pool} {j : Job} {js : List Job} (h : p.seeds = j :: js) :
      Step p { p with seeds := js, queued := j :: p.queued }
  | start {p : Pool} {i : Nat} {j : Job} (h : p.queued[i]? = some j) :
      Step p { p with
        queued := p.queued.eraseIdx i, running := (j, .making j.children) :: p.running }
  | make {p : Pool} {i : Nat} {j c : Job} {cs : List Job}
      (h : p.running[i]? = some (j, .making (c :: cs))) :
      Step p { p with
        queued := c :: p.queued, running := (j, .making cs) :: p.running.eraseIdx i }
  | finish {p : Pool} {i : Nat} {j : Job} (h : p.running[i]? = some (j, .making []))
      (ok : j.ending = .ok ()) :
      Step p { p with running := p.running.eraseIdx i, finished := j :: p.finished }
  | keep {p : Pool} {i : Nat} {j : Job} {abort : Abort}
      (h : p.running[i]? = some (j, .making [])) (failed : j.ending = .error abort) :
      Step p { p with
        running := (j, .failing) :: p.running.eraseIdx i, finished := j :: p.finished
        slot := p.slot.keep abort.toFault }
  | raise {p : Pool} {i : Nat} {j : Job} (h : p.running[i]? = some (j, .failing)) :
      Step p { p with running := p.running.eraseIdx i, slot := p.slot.raise }

/-- Any number of moves. -/
abbrev Reaches : Pool → Pool → Prop := Relation.ReflTransGen Step

/-- **The result of the pool**, which is there once nothing is left to do. -/
def result? (p : Pool) : Option (Except Fault Unit) :=
  if p.seeds.isEmpty && p.queued.isEmpty && p.running.isEmpty then some p.slot.take else none

end Pool

end Datalog
