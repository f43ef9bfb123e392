import Datalog.Agenda.Basic
import Datalog.Agenda.Job
import Datalog.Assoc
import Datalog.Bindings
import Datalog.Clause.Basic
import Datalog.Clause.Compile
import Datalog.Clause.Perform
import Datalog.Clause.Rejection
import Datalog.Database.Basic
import Datalog.Database.Query
import Datalog.Evaluation.Batch
import Datalog.Evaluation.Conclusion
import Datalog.Evaluation.Fixpoint
import Datalog.Evaluation.Join
import Datalog.Evaluation.Summary
import Datalog.Evaluation.Task
import Datalog.Fault
import Datalog.Function.Basic
import Datalog.Function.Builtin
import Datalog.Json
import Datalog.Meaning.Clause
import Datalog.Meaning.Closure
import Datalog.Meaning.Naive
import Datalog.Meaning.Refusal
import Datalog.Meaning.Renaming
import Datalog.Meaning.Strata
import Datalog.Meaning.Facts
import Datalog.Meaning.Loops
import Datalog.Meaning.Rule
import Datalog.Meaning.Value
import Datalog.Relation
import Datalog.Rule.Basic
import Datalog.Settings.Basic
import Datalog.Settings.Environment
import Datalog.Settings.Load
import Datalog.Settings.Raw
import Datalog.Settings.Toml.Document
import Datalog.Settings.Toml.Scalar
import Datalog.Solver
import Datalog.Store.Basic
import Datalog.Store.Export
import Datalog.Store.Key
import Datalog.Store.Listing
import Datalog.Stratum.Basic
import Datalog.Stratum.Plan
import Datalog.Term.Basic
import Datalog.Term.Order
import Datalog.Term.Text
import Datalog.Term.Variables
import Datalog.Text.Blank
import Datalog.Text.Invisible
import Datalog.Text.Numeral
import Datalog.Text.Quoted
import Datalog.Proofs.Outcome
import Datalog.Proofs.Value
import Datalog.Proofs.Assoc
import Datalog.Proofs.Goals
import Datalog.Proofs.Flow
import Datalog.Proofs.Derivation
import Datalog.Proofs.Strata
import Datalog.Proofs.Compile.Draft
import Datalog.Proofs.Compile.Action
import Datalog.Proofs.Compile.Pattern
import Datalog.Proofs.Compile.Equation
import Datalog.Proofs.Compile.Atom
import Datalog.Proofs.Compile.Search
import Datalog.Proofs.Compile.Body
import Datalog.Proofs.Loops
import Datalog.Proofs.Totality
import Datalog.Proofs.Compile.Calls
import Datalog.Proofs.Compile.Meaning
import Datalog.Proofs.Compile.Orderly
import Datalog.Proofs.Compile.Canonical
import Datalog.Proofs.Compile.Causes
import Datalog.Proofs.Compile.Refusal
import Datalog.Proofs.Compile.Names
import Datalog.Proofs.Compile.Renaming
import Datalog.Proofs.Compile.Hygiene
import Datalog.Proofs.Evaluation.Run
import Datalog.Proofs.Evaluation.Work
import Datalog.Proofs.Evaluation.Conclude
import Datalog.Proofs.Evaluation.Seeds
import Datalog.Meaning.Branches
import Datalog.Proofs.Evaluation.Alike
import Datalog.Proofs.Evaluation.Mirrored
import Datalog.Proofs.Evaluation.Branches
import Datalog.Proofs.Compile.Variant
import Datalog.Proofs.Stratum
import Datalog.Proofs.Planning
import Datalog.Proofs.Acceptance
import Datalog.Proofs.Evaluation.Due
import Datalog.Proofs.Evaluation.Steps
import Datalog.Proofs.Evaluation.Search
import Datalog.Proofs.Evaluation.Round
import Datalog.Proofs.Evaluation.Fixpoint
import Datalog.Proofs.Evaluation.Failure
import Datalog.Proofs.Evaluation.Recovery
import Datalog.Proofs.Evaluation.Confluence
import Datalog.Proofs.Database
import Datalog.Proofs.Evaluation.Endings
import Datalog.Proofs.Evaluation.Visits
import Datalog.Proofs.Filling
import Datalog.Proofs.History
import Datalog.Proofs.Positions
import Datalog.Proofs.Evaluation.Values
import Datalog.Proofs.Reached
import Datalog.Proofs.Feeding
import Datalog.Proofs.Evaluation.Growth
import Datalog.Proofs.Rerun
import Datalog.Proofs.Order
import Datalog.Proofs.Reading
import Datalog.Proofs.Absence
import Datalog.Meaning.Pattern
import Datalog.Meaning.Pool
import Datalog.Meaning.Queue
import Datalog.Proofs.Substitution
import Datalog.Proofs.Compile.Settled
import Datalog.Proofs.Compile.Drains
import Datalog.Proofs.Compile.Queue
import Datalog.Proofs.Compile.Size
import Datalog.Proofs.Query
import Datalog.Proofs.Sharing
import Datalog.Meaning.Reports
import Datalog.Meaning.Backtracking
import Datalog.Proofs.Evaluation.Reports
import Datalog.Proofs.Accounts
import Datalog.Proofs.Evaluation.Confined
import Datalog.Proofs.Evaluation.Rounds
import Datalog.Proofs.Evaluation.Termination
import Datalog.Proofs.Ways
import Datalog.Proofs.Fitted
import Datalog.Proofs.Seminaive
import Datalog.Proofs.Evaluation.Ledger
import Datalog.Proofs.Evaluation.Line
import Datalog.Proofs.Evaluation.Unbroken
import Datalog.Proofs.Evaluation.Backtracking
import Datalog.Proofs.Evaluation.Walk
import Datalog.Proofs.Evaluation.Complete
import Datalog.Proofs.Evaluation.Blame
import Datalog.Proofs.Pool
import Datalog.Meaning.Session
import Datalog.Proofs.Lockstep
import Datalog.Proofs.Indices
import Datalog.Proofs.Renumbering.Clause
import Datalog.Proofs.Renumbering.Work
import Datalog.Proofs.Renumbering.Evaluation
import Datalog.Proofs.Renumbering.Plan
import Datalog.Proofs.Orders
import Datalog.Proofs.Session
import Datalog.Meaning.Consultation
import Datalog.Proofs.Consultation
import Datalog.Proofs.Arithmetic
import Datalog.Meaning.Import
import Datalog.Proofs.Export
import Datalog.Proofs.Compile.Turns
import Datalog.Proofs.Inlining
import Datalog.Meaning.Cursor
import Datalog.Proofs.Cursor
import Datalog.Proofs.Evaluation.Generations
import Datalog.Proofs.Settings.Reading
import Datalog.Proofs.Settings.Loading
