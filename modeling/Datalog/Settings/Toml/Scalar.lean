import Datalog.Settings.Raw
import Datalog.Text.Numeral

/-!
# Settings/Toml/Scalar — the strings, numbers and dates of TOML

Readers take the rest of the text and give back what they read together with what is left; `none`
is a syntax error.
-/

namespace Datalog.Toml

/-- A reader. -/
abbrev Reader (α : Type) := List Char → Option (α × List Char)

/-- A control character that may not be written as such; the tab may. -/
def isControl (c : Char) : Bool := (c.toNat < 0x20 && c ≠ '\t') || c.toNat = 0x7f

/-- `n` hexadecimal digits, as a character. -/
def codePoint (n : Nat) : Reader Char := fun cs => do
  let digits := cs.take n
  guard (digits.length = n)
  let value ← Text.natural? 16 digits
  guard value.isValidChar
  return (Char.ofNat value, cs.drop n)

/-- What follows a backslash. -/
def escaped : Reader Char
  | 'b' :: cs => some ('\x08', cs)
  | 't' :: cs => some ('\t', cs)
  | 'n' :: cs => some ('\n', cs)
  | 'f' :: cs => some ('\x0c', cs)
  | 'r' :: cs => some ('\r', cs)
  | '"' :: cs => some ('"', cs)
  | '\\' :: cs => some ('\\', cs)
  | 'u' :: cs => codePoint 4 cs
  | 'U' :: cs => codePoint 8 cs
  | _ => none

/-- The rest of a string on one line, between `quote`s; `raw` strings have no escapes. -/
def line (quote : Char) (raw : Bool) : Nat → Reader (List Char)
  | 0, _ => none
  | _ + 1, [] => none
  | fuel + 1, c :: cs =>
    if c = quote then some ([], cs)
    else if c = '\\' ∧ !raw then do
      let (c, cs) ← escaped cs
      let (text, cs) ← line quote raw fuel cs
      return (c :: text, cs)
    else if isControl c then none
    else do
      let (text, cs) ← line quote raw fuel cs
      return (c :: text, cs)

/-- The line ends and blanks that a backslash at the end of a line takes with it. -/
def dropBlankLines (cs : List Char) : List Char := cs.dropWhile (" \t\r\n".toList.contains ·)

/-- The rest of a string over several lines, up to three `quote`s; two more may belong to it. -/
def lines (quote : Char) (raw : Bool) : Nat → Reader (List Char)
  | 0, _ => none
  | _ + 1, [] => none
  | fuel + 1, c :: cs =>
    if c = quote then
      let run := (c :: cs).takeWhile (· = quote)
      if run.length < 3 then do
        let (text, cs) ← lines quote raw fuel cs
        return (c :: text, cs)
      else if run.length ≤ 5 then some (run.drop 3, (c :: cs).drop run.length)
      else none
    else if c = '\\' ∧ !raw then
      match cs.dropWhile (" \t".toList.contains ·) with
      | '\n' :: _ | '\r' :: '\n' :: _ => lines quote raw fuel (dropBlankLines cs)
      | _ => do
        let (c, cs) ← escaped cs
        let (text, cs) ← lines quote raw fuel cs
        return (c :: text, cs)
    else
      match c, cs with
      | '\r', '\n' :: _ => lines quote raw fuel cs
      | '\n', cs => do
        let (text, cs) ← lines quote raw fuel cs
        return (c :: text, cs)
      | c, cs =>
        if isControl c then none
        else do
          let (text, cs) ← lines quote raw fuel cs
          return (c :: text, cs)

/-- A string over several lines, past its opening quotes; a line end right there is dropped. -/
def block (quote : Char) (raw : Bool) : Reader (List Char)
  | '\r' :: '\n' :: cs | '\n' :: cs => lines quote raw (cs.length + 1) cs
  | cs => lines quote raw (cs.length + 1) cs

/-- **A string value.** -/
def string : Reader String := fun cs => do
  let (text, cs) ← match cs with
    | '"' :: '"' :: '"' :: cs => block '"' false cs
    | '\'' :: '\'' :: '\'' :: cs => block '\'' true cs
    | '"' :: cs => line '"' false (cs.length + 1) cs
    | '\'' :: cs => line '\'' true (cs.length + 1) cs
    | _ => none
  return (String.ofList text, cs)

/-! ## Numbers and dates -/

/-- A number without its sign, and whether it is negative. -/
def sign : List Char → Bool × List Char
  | '-' :: cs => (true, cs)
  | '+' :: cs => (false, cs)
  | cs => (false, cs)

/-- Decimal digits in groups; no zero in front of others. -/
def decimal? (cs : List Char) : Option Nat :=
  match cs with
  | '0' :: _ :: _ => none
  | _ => Text.grouped? 10 cs

/-- **A 64-bit integer**: decimal with an optional sign, or hexadecimal, octal or binary. -/
def integer? (cs : List Char) : Option Int := do
  let n ← match cs with
    | '0' :: 'x' :: cs => Int.ofNat <$> Text.grouped? 16 cs
    | '0' :: 'o' :: cs => Int.ofNat <$> Text.grouped? 8 cs
    | '0' :: 'b' :: cs => Int.ofNat <$> Text.grouped? 2 cs
    | cs =>
      let (negative, digits) := sign cs
      (fun n => if negative then -Int.ofNat n else Int.ofNat n) <$> decimal? digits
  guard (Int64.minValue.toInt ≤ n ∧ n ≤ Int64.maxValue.toInt)
  return n

/-- A fraction, an exponent or both after a decimal number, or one of the special values. -/
def isFloat (cs : List Char) : Bool :=
  let digits := (sign cs).2
  let special := String.ofList digits
  let mantissa := digits.takeWhile fun c => c ≠ 'e' && c ≠ 'E'
  let exponent := digits.dropWhile fun c => c ≠ 'e' && c ≠ 'E'
  let whole := mantissa.takeWhile (· ≠ '.')
  let fraction := mantissa.dropWhile (· ≠ '.')
  special = "inf" || special = "nan" ||
    ((decimal? whole).isSome &&
      (fraction.isEmpty || (Text.grouped? 10 (fraction.drop 1)).isSome) &&
      (exponent.isEmpty || (Text.grouped? 10 (sign (exponent.drop 1)).2).isSome) &&
      !(fraction.isEmpty && exponent.isEmpty))

/-- The shape of a date, a time or both. -/
def isDateTime (cs : List Char) : Bool :=
  let shape := cs.map fun c => if Text.isDigit c then '0' else c
  let day := "0000-00-00".toList
  let time := "00:00:00".toList
  let isTime (cs : List Char) : Bool :=
    cs.take 8 == time &&
      (let rest := cs.drop 8
       rest.isEmpty || (rest.head? == some '.' && 2 ≤ rest.length && rest.tail.all (· == '0')))
  let local? (cs : List Char) : List Char :=
    if cs.getLast? == some 'Z' || cs.getLast? == some 'z' then cs.dropLast
    else
      let offset := cs.drop (cs.length - 6)
      if offset == "+00:00".toList || offset == "-00:00".toList then cs.take (cs.length - 6) else cs
  isTime shape || shape == day ||
    (shape.take 10 == day && ("Tt ".toList.any fun t => shape[10]? == some t) &&
      isTime (local? (shape.drop 11)))

/-- A value that is written without quotes or brackets. -/
def bare? (cs : List Char) : Option Raw :=
  match String.ofList cs with
  | "true" => some (.bool true)
  | "false" => some (.bool false)
  | _ =>
    match integer? cs with
    | some n => some (.int n)
    | none => if isFloat cs || isDateTime cs then some .other else none

end Datalog.Toml
