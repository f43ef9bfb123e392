import Datalog.Fault

/-!
# Agenda/Basic — tasks that make more tasks

An **agenda** holds the tasks that wait, in whatever order a **policy** will take them, and a
world that they change one at a time.  Running a task may put further tasks on the agenda.  A task
that fails does not stop the others: the first fault is kept, the rest of the agenda still runs,
and a task is told whether anything has failed before it.

A policy picks by looking at the whole agenda, so to say something for every policy is to say it for
every order in which the tasks can run.
-/

namespace Datalog

/-- What running one task leaves behind; the newest of the tasks it made comes first. -/
structure Outcome (τ : Type u) (σ : Type v) where
  world : σ
  spawned : List τ
  result : Except Abort Unit

/-- How tasks run; the flag says whether a task has failed before. -/
abbrev Behaviour (τ : Type u) (σ : Type v) := (failed : Bool) → τ → σ → Outcome τ σ

/-- **An agenda**: the world that the tasks change, those that wait for their turn, and those that
have had it. -/
structure Agenda (τ : Type u) (σ : Type v) where
  world : σ
  /-- The tasks that wait, newest first. -/
  waiting : List τ
  /-- The tasks that have run, latest first. -/
  finished : List τ := []
  /-- The first fault. -/
  fault : Option Fault := none

/-- Which waiting task runs next, counted from the newest; too large a number starts over. -/
abbrev Policy (τ : Type u) (σ : Type v) := Agenda τ σ → Nat

/-- **The newest task first.** -/
def Policy.newest : Policy τ σ := fun _ => 0

/-- The fault with which a task ended. -/
def Outcome.fault? (o : Outcome τ σ) : Option Fault :=
  match o.result with
  | .ok _ => none
  | .error abort => some abort.toFault

namespace Agenda

/-- Runs the waiting task at position `i`. -/
def runAt (run : Behaviour τ σ) (a : Agenda τ σ) (i : Nat) : Agenda τ σ :=
  match a.waiting[i]? with
  | none => a
  | some task =>
    let outcome := run a.fault.isSome task a.world
    { world := outcome.world
      waiting := outcome.spawned ++ a.waiting.eraseIdx i
      finished := task :: a.finished
      fault := a.fault <|> outcome.fault? }

/-- Runs the task that the policy picks. -/
def step (run : Behaviour τ σ) (policy : Policy τ σ) (a : Agenda τ σ) : Agenda τ σ :=
  a.runAt run (policy a % a.waiting.length)

/-- **Runs until nothing waits**, at most `budget` tasks; `none` if that was not enough. -/
def drain (run : Behaviour τ σ) (policy : Policy τ σ) : Nat → Agenda τ σ → Option (Agenda τ σ)
  | budget, a =>
    if a.waiting.isEmpty then some a
    else match budget with
      | 0 => none
      | budget + 1 => drain run policy budget (a.step run policy)

/-- The result of an agenda on which nothing waits: the first fault, if there is one. -/
def result (a : Agenda τ σ) : Except Fault Unit :=
  match a.fault with
  | some fault => .error fault
  | none => .ok ()

end Agenda

end Datalog
