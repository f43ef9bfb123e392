import Datalog.Settings.Raw
import Datalog.Settings.Toml.Scalar
import Datalog.Text.Blank

/-!
# Settings/Environment — settings from environment variables

A variable counts if its name begins with `FIXLOG_`, in whatever case; the rest of it, in lower
case, is the name of the value.  The text of a variable is trimmed and taken for a truth value, a
number or a quoted string where it reads as one, and for itself otherwise.
-/

namespace Datalog.Environment

/-- What the names of the variables begin with. -/
def marker : String := "fixlog_"

/-- The name of the value that a variable sets. -/
def valueName? (name : String) : Option String :=
  let lower := name.toList.map Char.toLower
  if marker.toList.isPrefixOf lower then
    some (String.ofList (Text.trim (lower.drop marker.length)))
  else none

/-- An integer of at most 64 bits: a natural number, with a plus sign if one likes, or a negative
one. -/
def integer? (cs : List Char) : Option Int :=
  match cs with
  | '-' :: digits => do
    let n ← Text.natural? 10 digits
    guard (Int64.minValue.toInt ≤ -Int.ofNat n)
    return -Int.ofNat n
  | '+' :: digits | digits => do
    let n ← Text.natural? 10 digits
    guard (n < UInt64.size)
    return Int.ofNat n

/-- **The value of a variable's text.** -/
def value (text : String) : Raw :=
  let cs := Text.trim text.toList
  match cs with
  | [] => .str ""
  | '"' :: rest =>
    match Toml.line '"' false (rest.length + 1) rest with
    | some (s, []) => .str (String.ofList s)
    | _ => .other
  | '[' :: _ | '\x7b' :: _ | '\'' :: _ => .other
  | _ =>
    if cs = "true".toList then .bool true
    else if cs = "false".toList then .bool false
    else
      match integer? cs with
      | some n => .int n
      | none => .str (String.ofList cs)

/-- The values that the variables set; a later variable goes before an earlier one. -/
def values (environment : List (String × String)) : List (String × Raw) :=
  (environment.filterMap fun (name, text) =>
    (valueName? name).map fun name => (name, value text)).reverse

end Datalog.Environment
