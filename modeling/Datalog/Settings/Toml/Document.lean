import Datalog.Assoc
import Datalog.Settings.Toml.Scalar

/-!
# Settings/Toml/Document — whole TOML documents

A document is read from its beginning to its end, line by line, into the values at its top level.
What stands inside tables matters only in so far as it has to be well formed and nothing may be
defined twice: the reader keeps the **path** of everything defined and what it was defined as.
-/

namespace Datalog.Toml

/-- A step down a path: into a table by name, or into an array of tables by number. -/
inductive Segment where
  | key (name : String)
  | item (number : Nat)
deriving DecidableEq

/-- The steps from the top of a document down to something inside it. -/
abbrev Path := List Segment

/-- What a path was defined as. -/
inductive Definition where
  | value
  /-- By a header of its own. -/
  | header
  /-- By a header of something inside it. -/
  | implied
  /-- By a dotted key. -/
  | dotted
  /-- An array of tables with `last` as the number of its last table. -/
  | tables (last : Nat)
deriving DecidableEq

/-- What has been defined so far, at which path and how. -/
abbrev Definitions := Assoc Path Definition

/-! ## Keys and values -/

/-- A character that a name may have without quotes. -/
def isBareKey (c : Char) : Bool :=
  ('a' ≤ c && c ≤ 'z') || ('A' ≤ c && c ≤ 'Z') || Text.isDigit c || c = '_' || c = '-'

/-- What follows the blanks of a line. -/
def skipBlanks (cs : List Char) : List Char := cs.dropWhile fun c => c = ' ' || c = '\t'

/-- One name of a key: bare, or a string on one line. -/
def name : Reader String := fun cs =>
  match cs with
  | '"' :: rest => do
    let (text, rest) ← line '"' false (rest.length + 1) rest
    return (String.ofList text, rest)
  | '\'' :: rest => do
    let (text, rest) ← line '\'' true (rest.length + 1) rest
    return (String.ofList text, rest)
  | cs =>
    let text := cs.takeWhile isBareKey
    if text.isEmpty then none else some (String.ofList text, cs.drop text.length)

/-- **A key**: names with dots between them. -/
def key : Nat → Reader (List String)
  | 0, _ => none
  | fuel + 1, cs => do
    let (first, cs) ← name (skipBlanks cs)
    match skipBlanks cs with
    | '.' :: cs => do
      let (rest, cs) ← key fuel cs
      return (first :: rest, cs)
    | cs => return ([first], cs)

/-- A comment up to the end of its line. -/
def comment (cs : List Char) : Option (List Char) :=
  let text := cs.takeWhile fun c => c ≠ '\n' && c ≠ '\r'
  if text.any isControl then none else some (cs.drop text.length)

/-- Blanks, line ends and comments, as many as there are. -/
def gap : Nat → List Char → Option (List Char)
  | 0, _ => none
  | fuel + 1, cs =>
    match skipBlanks cs with
    | '\n' :: cs | '\r' :: '\n' :: cs => gap fuel cs
    | '#' :: cs => (comment cs).bind (gap fuel)
    | cs => some cs

/-- No two of the keys name the same thing, and none names something inside another. -/
def areDistinct : List (List String) → Bool
  | [] => true
  | k :: ks => ks.all (fun l => !k.isPrefixOf l && !l.isPrefixOf k) && areDistinct ks

/-- What may stand in a value without quotes. -/
def isBareValue (c : Char) : Bool := isBareKey c || c = '+' || c = '.' || c = ':'

mutual

/-- **A value.** -/
def value : Nat → Reader Raw
  | 0, _ => none
  | fuel + 1, cs =>
    match cs with
    | '[' :: cs => do
      let cs ← items fuel cs
      return (.other, cs)
    | '{' :: cs =>
      match skipBlanks cs with
      | '}' :: cs => some (.other, cs)
      | cs => do
        let (keys, cs) ← fields fuel cs
        guard (areDistinct keys)
        return (.other, cs)
    | '"' :: _ | '\'' :: _ => do
      let (s, cs) ← string cs
      return (.str s, cs)
    | cs => do
      let text := cs.takeWhile isBareValue
      let raw ← bare? text
      return (raw, cs.drop text.length)

/-- The values of an array up to its closing bracket. -/
def items : Nat → List Char → Option (List Char)
  | 0, _ => none
  | fuel + 1, cs => do
    match ← gap (fuel + 1) cs with
    | ']' :: cs => return cs
    | cs =>
      let (_, cs) ← value fuel cs
      match ← gap (fuel + 1) cs with
      | ',' :: cs => items fuel cs
      | ']' :: cs => return cs
      | _ => none

/-- The fields of an inline table up to its closing brace, as their keys. -/
def fields : Nat → Reader (List (List String))
  | 0, _ => none
  | fuel + 1, cs => do
    let (k, cs) ← key fuel cs
    match skipBlanks cs with
    | '=' :: cs => do
      let (_, cs) ← value fuel (skipBlanks cs)
      match skipBlanks cs with
      | ',' :: cs => do
        let (ks, cs) ← fields fuel cs
        return (k :: ks, cs)
      | '}' :: cs => return ([k], cs)
      | _ => none
    | _ => none

end

/-! ## Definitions -/

/-- The table that a step by name from `path` leads to; of an array of tables it is the last one. -/
def enter (defs : Definitions) (path : Path) (name : String) : Path :=
  let path := path ++ [.key name]
  match defs.get? path with
  | some (.tables last) => path ++ [.item last]
  | _ => path

/-- Walks down to where a header's last name is defined. -/
def descend : Definitions → Path → List String → Option (Definitions × Path)
  | defs, path, [] => some (defs, path)
  | defs, path, name :: names =>
    let path := enter defs path name
    match defs.get? path with
    | none => descend (defs.put path .implied) path names
    | some .value => none
    | some _ => descend defs path names

/-- The header `[names]`: a table that has been implied at most. -/
def defineTable (defs : Definitions) (names : List String) : Option (Definitions × Path) := do
  let (defs, path) ← descend defs [] names.dropLast
  let path := path ++ [.key (← names.getLast?)]
  match defs.get? path with
  | none | some .implied => return (defs.put path .header, path)
  | some _ => none

/-- The header `[[names]]`: one more table of an array. -/
def defineItem (defs : Definitions) (names : List String) : Option (Definitions × Path) := do
  let (defs, path) ← descend defs [] names.dropLast
  let path := path ++ [.key (← names.getLast?)]
  let number ← match defs.get? path with
    | none => some 0
    | some (.tables last) => some (last + 1)
    | some _ => none
  let item := path ++ [.item number]
  return ((defs.put path (.tables number)).put item .header, item)

/-- The key of a value in the table at `path`: dotted keys make tables that no header has made. -/
def defineValue : Definitions → Path → List String → Option Definitions
  | _, _, [] => none
  | defs, path, [name] =>
    let path := path ++ [.key name]
    if defs.contains path then none else some (defs.put path .value)
  | defs, path, name :: names =>
    let path := path ++ [.key name]
    match defs.get? path with
    | none => defineValue (defs.put path .dotted) path names
    | some .dotted | some .implied => defineValue defs path names
    | some _ => none

/-! ## Documents -/

/-- The rest of a line holds nothing but a comment. -/
def endOfLine (cs : List Char) : Option (List Char) :=
  let atEnd : List Char → Option (List Char)
    | [] => some []
    | '\n' :: cs | '\r' :: '\n' :: cs => some cs
    | _ => none
  match skipBlanks cs with
  | '#' :: cs => (comment cs).bind atEnd
  | cs => atEnd cs

/-- The lines of a document from inside the table at `path`; the values at the top level. -/
def body : Nat → Definitions → Path → List Char → Option (List (String × Raw))
  | 0, _, _, _ => none
  | fuel + 1, defs, path, cs => do
    match ← gap (cs.length + 1) cs with
    | [] => return []
    | '[' :: '[' :: cs => do
      let (names, cs) ← key (cs.length + 1) cs
      match cs with
      | ']' :: ']' :: cs => do
        let (defs, path) ← defineItem defs names
        let values ← body fuel defs path (← endOfLine cs)
        return (← names.head?, .other) :: values
      | _ => none
    | '[' :: cs => do
      let (names, cs) ← key (cs.length + 1) cs
      match cs with
      | ']' :: cs => do
        let (defs, path) ← defineTable defs names
        let values ← body fuel defs path (← endOfLine cs)
        return (← names.head?, .other) :: values
      | _ => none
    | cs => do
      let (names, cs) ← key (cs.length + 1) cs
      match cs with
      | '=' :: cs => do
        let (raw, cs) ← value (cs.length + 1) (skipBlanks cs)
        let defs ← defineValue defs path names
        let values ← body fuel defs path (← endOfLine cs)
        match path, names with
        | [], [name] => return (name, raw) :: values
        | [], name :: _ => return (name, .other) :: values
        | _, _ => return values
      | _ => none

/-- **The top-level values of a document**; a table counts as a value called by its name. -/
def document (text : String) : Option (List (String × Raw)) :=
  let cs := text.toList
  body (cs.length + 1) ∅ [] cs

end Datalog.Toml
