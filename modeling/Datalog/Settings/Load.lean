import Datalog.Settings.Environment
import Datalog.Settings.Toml.Document

/-!
# Settings/Load — where settings come from
-/

namespace Datalog.Settings

/-- **The settings of a file, if there is one, and of the environment**, which goes before the
file.  A malformed file is an error whatever the environment says; a value of the wrong sort is
none if the environment replaces it. -/
def load (file : Option String) (environment : List (String × String)) :
    Except SettingsError Settings := do
  let fromFile ← match file with
    | none => .ok []
    | some text =>
      match Toml.document text with
      | some values => .ok values
      | none => .error .unreadable
  ofValues (Environment.values environment ++ fromFile)

end Datalog.Settings
