import Datalog.Solver

/-!
# Meaning/Consultation — a solver that is asked

A solver in use is a **service**: it is given a query and some time, and being asked may leave its
mark on it.  A memory in front of a service passes on only what it has no verdict for, so the state
of the service shows which queries have reached it.  A query is **settled** once the same question
has been answered for good.
-/

namespace Datalog

namespace Solver

/-- A question, and the time for it in nanoseconds if there is a limit. -/
structure Query where
  assertions : List Term
  wantModel : Bool
  timeout : Option Nat := none
deriving DecidableEq, Inhabited

/-- What is asked, whatever the time. -/
def Query.question (q : Query) : List Term × Bool := (q.assertions, q.wantModel)

/-- **A solver with a state.** -/
abbrev Service (σ : Type u) := Query → σ → Except Fault Verdict × σ

/-- An answer that no later attempt could better. -/
def isFinal : Except Fault Verdict → Bool
  | .ok (.sat _) | .ok .unsat => true
  | .ok .unknown | .error _ => false

/-- Queries with the answers that they were given. -/
abbrev Transcript := List (Query × Except Fault Verdict)

namespace Transcript

/-- **The same question was answered `sat` or `unsat`.** -/
def Settles (past : Transcript) (q : Query) : Prop :=
  ∃ e ∈ past, e.1.question = q.question ∧ isFinal e.2 = true

/-- A transcript can be searched. -/
instance (past : Transcript) (q : Query) : Decidable (past.Settles q) :=
  inferInstanceAs (Decidable (∃ e ∈ past, _ ∧ _))

/-- **The queries that nothing before them settles**, where `past` comes before all of them. -/
def unsettled (past : Transcript) : Transcript → List Query
  | [] => []
  | e :: later =>
    if past.Settles e.1 then unsettled (past ++ [e]) later
    else e.1 :: unsettled (past ++ [e]) later

end Transcript

namespace Memory

variable {σ : Type u} (service : Service σ)

/-- **A query to the memory**, which asks the service if it has no verdict. -/
def ask (q : Query) (memory : Memory) (s : σ) : Except Fault Verdict × Memory × σ :=
  match memory.verdicts.get? q.question with
  | some verdict => (.ok verdict, { memory with hits := memory.hits + 1 }, s)
  | none =>
    let (answer, s) := service q s
    let (answer, memory) := memory.check (fun _ _ => answer) q.assertions q.wantModel
    (answer, memory, s)

/-- Several queries, one after the other. -/
def askAll : List Query → Memory → σ → List (Except Fault Verdict) × Memory × σ
  | [], memory, s => ([], memory, s)
  | q :: queries, memory, s =>
    let (answer, memory, s) := memory.ask service q s
    let (answers, memory, s) := askAll queries memory s
    (answer :: answers, memory, s)

end Memory

end Solver

end Datalog
