import Datalog.Settings.Basic

/-!
# Settings/Raw — settings from named values

A configuration is a list of named values, whatever they were written in.  Names that are no
settings are passed over; a setting that is not named keeps its default.
-/

namespace Datalog

/-- A value as a source of settings gives it. -/
inductive Raw where
  | bool (b : Bool)
  | int (n : Int)
  | str (s : String)
  /-- A fraction, a list, a table or a date: nothing that a setting can be. -/
  | other
deriving DecidableEq, Inhabited

/-- Why settings cannot be loaded. -/
inductive SettingsError where
  /-- A source is malformed, or a value is not of the right sort. -/
  | unreadable
  /-- A size that must not be zero is. -/
  | zero (name : String)
deriving DecidableEq, Inhabited

/-- The wording, where it does not depend on how a source is written. -/
def SettingsError.message? : SettingsError → Option String
  | unreadable => none
  | zero name => some (name ++ " must be at least 1")

namespace Raw

/-- A number of things. -/
def size? : Raw → Option Nat
  | int n => n.toNat?
  | _ => none

/-- A truth value. -/
def bool? : Raw → Option Bool
  | bool b => some b
  | _ => none

/-- A way of compiling equations, by its name. -/
def unification? : Raw → Option Unification
  | str "inline" => some .inline
  | str "assign" => some .assign
  | _ => none

end Raw

namespace Settings

/-- The value called `name` read as a setting, or the default. -/
def field (values : List (String × Raw)) (name : String) (read : Raw → Option α) (default : α) :
    Except SettingsError α :=
  match values.lookup name with
  | none => .ok default
  | some raw =>
    match read raw with
    | some a => .ok a
    | none => .error .unreadable

/-- **The settings that the named values describe**; of several values of one name the first counts.
The sort of every value is looked at before any size. -/
def ofValues (values : List (String × Raw)) : Except SettingsError Settings := do
  let d : Settings := {}
  let settings : Settings := {
    taskSize := ← field values "task_size" Raw.size? d.taskSize
    splitTaskSize := ← field values "smt_task_size" Raw.size? d.splitTaskSize
    maxGeneration := ← field values "eager_eval_max_gen" Raw.size? d.maxGeneration
    eagerBatchSize := ← field values "eager_eval_batch_size" Raw.size? d.eagerBatchSize
    unification := ← field values "unification" Raw.unification? d.unification
    parallelism := ← field values "parallelism" Raw.size? d.parallelism
    recordWork := ← field values "record_work" Raw.bool? d.recordWork }
  match settings.zeroSize? with
  | some name => .error (.zero name)
  | none => .ok settings

end Settings

end Datalog
