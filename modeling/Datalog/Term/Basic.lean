/-!
# Term/Basic — variables, literals and terms

A **term** is a variable, a literal, a constructor applied to terms, or a call of a registered
function.  Integer literals are 64-bit words, so a term cannot hold a number the arithmetic
functions could not have produced.  The nesting through `List` rules out the automatic instances:
equality is decided by hand, and `Term.induction` is the induction principle that hands out a
hypothesis per argument.
-/

namespace Datalog

/-- A variable: one that a rule writes has number 0, one that compilation invents has its own
positive number, so the two never meet. -/
structure Var where
  name : String
  number : Nat := 0
deriving DecidableEq, Inhabited

/-- The `n`-th invented variable. -/
def Var.fresh (n : Nat) : Var := ⟨"_v", n⟩

/-- A literal. -/
inductive Value where
  | int (i : Int64)
  | str (s : String)
  | bool (b : Bool)
deriving DecidableEq

/-- **A term.**  Only variables and calls keep it from being a value. -/
inductive Term where
  | var (v : Var)
  | ctor (symbol : String) (args : List Term)
  | lit (value : Value)
  | call (function : String) (args : List Term)

/-- The arguments of a fact; a stored one holds no variable and no call. -/
abbrev Tuple := List Term

namespace Term

/-- An integer as a term. -/
def int (i : Int64) : Term := .lit (.int i)

/-- A string as a term. -/
def str (s : String) : Term := .lit (.str s)

/-- A truth value as a term. -/
def bool (b : Bool) : Term := .lit (.bool b)

/-- Any literal would do. -/
instance : Inhabited Term := ⟨bool false⟩

/-- The variable, if the term is one. -/
def asVar? : Term → Option Var
  | .var v => some v
  | _ => none

/-- The integer, if the term is one. -/
def asInt? : Term → Option Int64
  | .lit (.int i) => some i
  | _ => none

/-- The string, if the term is one. -/
def asStr? : Term → Option String
  | .lit (.str s) => some s
  | _ => none

/-- The truth value, if the term is one. -/
def asBool? : Term → Option Bool
  | .lit (.bool b) => some b
  | _ => none

/-! ## Equality -/

mutual

/-- Equality of terms, symbol first and then argument by argument. -/
def decEq : (s t : Term) → Decidable (s = t)
  | .var v, .var w => decidable_of_iff (v = w) ⟨congrArg var, fun h => by cases h; rfl⟩
  | .lit v, .lit w => decidable_of_iff (v = w) ⟨congrArg lit, fun h => by cases h; rfl⟩
  | .ctor f as, .ctor g bs =>
    if h : f = g then
      match decEqs as bs with
      | isTrue e => isTrue (by rw [h, e])
      | isFalse n => isFalse fun e => n (by cases e; rfl)
    else isFalse fun e => h (by cases e; rfl)
  | .call f as, .call g bs =>
    if h : f = g then
      match decEqs as bs with
      | isTrue e => isTrue (by rw [h, e])
      | isFalse n => isFalse fun e => n (by cases e; rfl)
    else isFalse fun e => h (by cases e; rfl)
  | .var _, .ctor .. | .var _, .lit _ | .var _, .call .. => isFalse nofun
  | .ctor .., .var _ | .ctor .., .lit _ | .ctor .., .call .. => isFalse nofun
  | .lit _, .var _ | .lit _, .ctor .. | .lit _, .call .. => isFalse nofun
  | .call .., .var _ | .call .., .ctor .. | .call .., .lit _ => isFalse nofun

/-- Equality of argument lists. -/
def decEqs : (ss ts : List Term) → Decidable (ss = ts)
  | [], [] => isTrue rfl
  | [], _ :: _ => isFalse nofun
  | _ :: _, [] => isFalse nofun
  | s :: ss, t :: ts =>
    match decEq s t with
    | isTrue h =>
      match decEqs ss ts with
      | isTrue hs => isTrue (by rw [h, hs])
      | isFalse n => isFalse fun e => n (by cases e; rfl)
    | isFalse n => isFalse fun e => n (by cases e; rfl)

end

/-- Equality of terms is decided by going through both of them. -/
instance : DecidableEq Term := decEq

/-! ## Induction -/

/-- **Induction on terms**: what holds of a constructor or a call whenever it holds of every
argument holds of every term. -/
@[induction_eliminator]
theorem induction {P : Term → Prop} (var : ∀ v, P (.var v)) (lit : ∀ v, P (.lit v))
    (ctor : ∀ f args, (∀ a ∈ args, P a) → P (.ctor f args))
    (call : ∀ f args, (∀ a ∈ args, P a) → P (.call f args)) (t : Term) : P t :=
  @Term.rec P (fun args => ∀ a ∈ args, P a) var ctor lit call
    (fun _ h => nomatch h)
    (fun _ _ h hs a ha => (List.mem_cons.1 ha).elim (fun e => e ▸ h) (hs a)) t

end Term

end Datalog
