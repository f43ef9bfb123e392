import Datalog.Term.Basic
import Datalog.Text.Quoted

/-!
# Term/Text — terms and facts as they are shown

`f(a, b)` for a constructor or a call.  A constructor without arguments is its bare symbol, a call
without arguments keeps its parentheses, and an invented variable shows its number after a `%`.
-/

namespace Datalog

/-- A variable as it is shown, which tells invented ones from the others. -/
def Var.text (v : Var) : String :=
  if v.number = 0 then v.name else v.name ++ "%" ++ toString v.number

/-- A literal as it is shown; strings are quoted. -/
def Value.text : Value → String
  | .int i => toString i.toInt
  | .str s => Text.quote s
  | .bool b => if b then "true" else "false"

/-- The texts in parentheses, separated by commas. -/
def Text.parenthesized (texts : List String) : String := "(" ++ ", ".intercalate texts ++ ")"

/-- A name with its arguments, bare when there are none. -/
def Text.applied (name : String) (texts : List String) : String :=
  if texts.isEmpty then name else name ++ parenthesized texts

mutual

/-- **A term as it is shown.** -/
def Term.text : Term → String
  | .var v => v.text
  | .lit v => v.text
  | .ctor f args => Text.applied f (Tuple.texts args)
  | .call f args => f ++ Text.parenthesized (Tuple.texts args)

/-- The texts of the terms, in their order. -/
def Tuple.texts : Tuple → List String
  | [] => []
  | t :: ts => t.text :: Tuple.texts ts

end

/-- A fact of the relation called `name`. -/
def Tuple.text (name : String) (tuple : Tuple) : String := Text.applied name (Tuple.texts tuple)

end Datalog
