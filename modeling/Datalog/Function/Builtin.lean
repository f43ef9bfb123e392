import Datalog.Function.Basic
import Datalog.Term.Text

/-!
# Function/Builtin — arithmetic, comparison and concatenation

Arithmetic is that of the integers with a range check at the end: a result that is no 64-bit word is
an overflow and never wraps.  Division truncates toward zero, and the remainder is taken only where
the quotient is a word.
-/

namespace Datalog

namespace Builtin

/-- The word that an integer is, if it is one. -/
def word? (n : Int) : Option Int64 :=
  if Int64.minValue.toInt ≤ n ∧ n ≤ Int64.maxValue.toInt then some (Int64.ofInt n) else none

/-- Reads an integer argument. -/
def integer (name : String) (t : Term) : Except Abort Int64 :=
  match t.asInt? with
  | some i => .ok i
  | none => .error (.fault (.function name ("expected an integer, got " ++ t.text)))

/-- An integer result, or the overflow of the function called `name`. -/
def exactly (name : String) (n : Int) : Except Abort Term :=
  match word? n with
  | some i => .ok (.int i)
  | none => refuse name "integer overflow"

/-- A function of two integers; the left argument is read first. -/
def onIntegers (name : String) (f : Int → Int → Except Abort Term) : Function :=
  .binary name fun s t => do
    let a ← integer name s
    let b ← integer name t
    f a.toInt b.toInt

/-- A total operation on two integers. -/
def arithmetic (name : String) (op : Int → Int → Int) : Function :=
  onIntegers name fun a b => exactly name (op a b)

/-- **Truncating division and its remainder**: `result` picks one of the two, and neither is there
when the divisor is zero or the quotient is no word. -/
def division (name : String) (result : Int → Int → Int) : Function :=
  onIntegers name fun a b =>
    if b = 0 then refuse name "division by zero"
    else if (word? (a.tdiv b)).isNone then refuse name "integer overflow"
    else exactly name (result a b)

/-- A test of two integers. -/
def comparison (name : String) (test : Int → Int → Bool) : Function :=
  onIntegers name fun a b => .ok (.bool (test a b))

/-- The negative of an integer; the smallest word has none. -/
def negation (name : String) : Function :=
  .unary name fun t => do
    let a ← integer name t
    exactly name (-a.toInt)

/-- Two strings, one after the other. -/
def concatenation (name : String) : Function :=
  .binary name fun s t =>
    match s.asStr?, t.asStr? with
    | some a, some b => .ok (.str (a ++ b))
    | _, _ => refuse name ("expected two strings, got " ++ s.text ++ " and " ++ t.text)

end Builtin

open Builtin in
/-- **The functions every program has.** -/
def Functions.builtin : Functions := .ofList [
  ("add", arithmetic "add" (· + ·)),
  ("sub", arithmetic "sub" (· - ·)),
  ("mul", arithmetic "mul" (· * ·)),
  ("div", division "div" Int.tdiv),
  ("rem", division "rem" Int.tmod),
  ("lt", comparison "lt" fun a b => a < b),
  ("le", comparison "le" fun a b => a ≤ b),
  ("gt", comparison "gt" fun a b => a > b),
  ("ge", comparison "ge" fun a b => a ≥ b),
  ("neg", negation "neg"),
  ("concat", concatenation "concat")]

end Datalog
