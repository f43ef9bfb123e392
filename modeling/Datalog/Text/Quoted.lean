import Datalog.Text.Invisible

/-!
# Text/Quoted — string literals as they are shown

A string is shown between double quotes.  The quote, the backslash, newline, carriage return, tab
and the null character have short escapes; any other invisible character is written `\u{…}` with
its code point in lower-case hexadecimal; everything else stands for itself.
-/

namespace Datalog.Text

/-- How one character of a quoted string is shown. -/
def escape (c : Char) : String :=
  if c = '"' then "\\\""
  else if c = '\\' then "\\\\"
  else if c = '\n' then "\\n"
  else if c = '\r' then "\\r"
  else if c = '\t' then "\\t"
  else if c = '\x00' then "\\0"
  else if isInvisible c then
    "\\u\x7b" ++ String.ofList (Nat.toDigits 16 c.toNat) ++ "\x7d"
  else c.toString

/-- **The quoted form of a string.** -/
def quote (s : String) : String :=
  "\"" ++ String.join (s.toList.map escape) ++ "\""

end Datalog.Text
