import Datalog.Proofs.Evaluation.Blame

/-!
# Proofs/Arithmetic — integers are exact or refused

The words are the integers from `-2 ^ 63` up to `2 ^ 63`, and a function on integers returns a word
only if it is the exact result (`Builtin.Exact`).  Of all quotients of words one alone is no word,
that of the least word by `-1` (`Builtin.word?_tdiv_eq_none_iff`).  `Functions.Arithmetical` says
what every function on integers promises, and `Functions.arithmetical_builtin` that the promises are
kept.
-/

namespace Datalog

namespace Builtin

variable {name : String} {a b i : Int64} {n : Int} {s t : Term}

/-! ## Words -/

theorem word?_toInt (i : Int64) : word? i.toInt = some i := by
  rw [word?, if_pos ⟨i.minValue_le_toInt, i.toInt_le⟩, Int64.ofInt_toInt]

theorem word?_eq_some_iff : word? n = some i ↔ i.toInt = n := by
  constructor
  · intro h
    rw [word?] at h
    split at h
    · next fits =>
      obtain rfl := Option.some.inj h
      rw [Int64.toInt_minValue, Int64.toInt_maxValue] at fits
      exact Int64.toInt_ofInt_of_le fits.1 (by omega)
    · cases h
  · rintro rfl
    exact word?_toInt i

theorem word?_eq_none_iff : word? n = none ↔ ¬(-2 ^ 63 ≤ n ∧ n < 2 ^ 63) := by
  rw [word?, Int64.toInt_minValue, Int64.toInt_maxValue]
  split
  · next fits =>
    refine iff_of_false (Option.some_ne_none _) (not_not.2 ⟨fits.1, ?_⟩)
    omega
  · next out =>
    refine iff_of_true rfl fun fits => out ⟨fits.1, ?_⟩
    omega

/-- **One quotient is no word.** -/
theorem word?_tdiv_eq_none_iff :
    word? (a.toInt.tdiv b.toInt) = none ↔ a = Int64.minValue ∧ b = -1 := by
  constructor
  · intro h
    by_contra other
    have exact : (a / b).toInt = a.toInt.tdiv b.toInt := by
      rcases not_and_or.1 other with ha | hb
      · exact Int64.toInt_div_of_ne_left a b ha
      · exact Int64.toInt_div_of_ne_right a b hb
    rw [← exact, word?_toInt] at h
    cases h
  · rintro ⟨rfl, rfl⟩
    decide

/-! ## Exact results -/

/-- **The outcome is exact**: the integer if it is a word, and otherwise an overflow of the function
`name`. -/
def Exact (name : String) (n : Int) (outcome : Except Abort Term) : Prop :=
  if -2 ^ 63 ≤ n ∧ n < 2 ^ 63 then ∃ i : Int64, i.toInt = n ∧ outcome = .ok (.int i)
  else outcome = refuse name "integer overflow"

theorem exactly_toInt (name : String) (i : Int64) : exactly name i.toInt = .ok (.int i) := by
  rw [exactly, word?_toInt]

theorem exact_exactly (name : String) (n : Int) : Exact name n (exactly name n) := by
  rw [Exact, exactly]
  cases h : word? n with
  | none => rw [if_neg (word?_eq_none_iff.1 h)]
  | some i =>
    have fits : -2 ^ 63 ≤ n ∧ n < 2 ^ 63 := by
      by_contra out
      rw [word?_eq_none_iff.2 out] at h
      cases h
    rw [if_pos fits]
    exact ⟨i, word?_eq_some_iff.1 h, rfl⟩

/-- What is no integer is refused, the left argument first. -/
theorem onIntegers_refuses {f : Int → Int → Except Abort Term}
    (h : s.asInt? = none ∨ t.asInt? = none) : (onIntegers name f).run [s, t] =
      refuse name ("expected an integer, got " ++ (if s.asInt? = none then s else t).text) := by
  have run : (onIntegers name f).run [s, t] = (do
    let a ← integer name s
    let b ← integer name t
    f a.toInt b.toInt) := rfl
  rw [run, integer, integer]
  cases hs : s.asInt? with
  | none => rfl
  | some a =>
    cases ht : t.asInt? with
    | none => rfl
    | some b => simp [hs, ht] at h

theorem negation_refuses (h : t.asInt? = none) :
    (negation name).run [t] = refuse name ("expected an integer, got " ++ t.text) := by
  have run : (negation name).run [t] = (do
    let a ← integer name t
    exactly name (-a.toInt)) := rfl
  rw [run, integer, h]
  rfl

/-- **Division, case by case.** -/
theorem division_run (name : String) (result : Int → Int → Int) (a b : Int64) :
    (division name result).run [.int a, .int b] =
      if b = 0 then refuse name "division by zero"
      else if a = Int64.minValue ∧ b = -1 then refuse name "integer overflow"
      else exactly name (result a.toInt b.toInt) := by
  have run : (division name result).run [.int a, .int b] =
      if b.toInt = 0 then refuse name "division by zero"
      else if (word? (a.toInt.tdiv b.toInt)).isNone then refuse name "integer overflow"
      else exactly name (result a.toInt b.toInt) := rfl
  have zero : b.toInt = 0 ↔ b = 0 := Int64.toInt_inj (y := 0)
  simp only [run, zero, Option.isNone_iff_eq_none, word?_tdiv_eq_none_iff]

/-- A result that is a word whenever the quotient is one. -/
def Words (result : Int → Int → Int) : Prop := ∀ a b : Int64,
  ¬(a = Int64.minValue ∧ b = -1) → ∃ i : Int64, i.toInt = result a.toInt b.toInt

theorem words_tdiv : Words Int.tdiv := fun a b other =>
  ⟨a / b, (not_and_or.1 other).elim (Int64.toInt_div_of_ne_left a b)
    (Int64.toInt_div_of_ne_right a b)⟩

theorem words_tmod : Words Int.tmod := fun a b _ => ⟨a % b, Int64.toInt_mod a b⟩

section Division

variable {result : Int → Int → Int}

theorem division_ok (hb : b ≠ 0) (other : ¬(a = Int64.minValue ∧ b = -1))
    (hi : i.toInt = result a.toInt b.toInt) :
    (division name result).run [.int a, .int b] = .ok (.int i) := by
  rw [division_run, if_neg hb, if_neg other, ← hi, exactly_toInt]

/-- **Neither error takes the other's place.** -/
theorem division_by_zero_iff (words : Words result) :
    (division name result).run [.int a, .int b] = refuse name "division by zero" ↔ b = 0 := by
  refine ⟨fun refused => ?_, fun hb => by rw [division_run, if_pos hb]⟩
  by_contra hb
  by_cases other : a = Int64.minValue ∧ b = -1
  · rw [division_run, if_neg hb, if_pos other] at refused
    simp [refuse] at refused
  · obtain ⟨i, hi⟩ := words a b other
    rw [division_ok hb other hi] at refused
    cases refused

theorem division_overflow_iff (words : Words result) :
    (division name result).run [.int a, .int b] = refuse name "integer overflow" ↔
      a = Int64.minValue ∧ b = -1 := by
  constructor
  · intro refused
    by_contra other
    by_cases hb : b = 0
    · rw [division_run, if_pos hb] at refused
      simp [refuse] at refused
    · obtain ⟨i, hi⟩ := words a b other
      rw [division_ok hb other hi] at refused
      cases refused
  · rintro ⟨rfl, rfl⟩
    rw [division_run, if_neg (by decide), if_pos ⟨rfl, rfl⟩]

/-- **Quotient and remainder** make up the dividend. -/
theorem exists_quotient (hb : b ≠ 0) (other : ¬(a = Int64.minValue ∧ b = -1)) : ∃ q r : Int64,
    (division "div" Int.tdiv).run [.int a, .int b] = .ok (.int q) ∧
    (division "rem" Int.tmod).run [.int a, .int b] = .ok (.int r) ∧
    a.toInt = b.toInt * q.toInt + r.toInt ∧ |r.toInt| < |b.toInt| ∧
    (r.toInt = 0 ∨ r.toInt.sign = a.toInt.sign) := by
  obtain ⟨q, hq⟩ := words_tdiv a b other
  obtain ⟨r, hr⟩ := words_tmod a b other
  refine ⟨q, r, division_ok hb other hq, division_ok hb other hr, ?_, ?_, ?_⟩
  · rw [hq, hr, Int.mul_tdiv_add_tmod]
  · have pos : 0 < b.toInt.natAbs := Int.natAbs_pos.2 fun zero =>
      hb (Int64.toInt_inj.1 (zero.trans Int64.toInt_zero.symm))
    rw [hr, Int.abs_eq_natAbs, Int.abs_eq_natAbs, Int.natAbs_tmod]
    exact Int.ofNat_lt.2 (Nat.mod_lt _ pos)
  · rw [hr, Int.sign_tmod]
    split
    · next divides => exact .inl (Int.tmod_eq_zero_of_dvd divides)
    · exact .inr rfl

end Division

end Builtin

/-! ## The functions every program has -/

namespace Functions

open Builtin (Exact)

/-- A call with words for arguments. -/
def onWords (fns : Functions) (name : String) (args : List Int64) : Except Abort Term :=
  fns.call name (args.map .int)

/-- **What the functions on integers promise.** -/
structure Arithmetical (fns : Functions) : Prop where
  add : ∀ a b, Exact "add" (a.toInt + b.toInt) (fns.onWords "add" [a, b])
  sub : ∀ a b, Exact "sub" (a.toInt - b.toInt) (fns.onWords "sub" [a, b])
  mul : ∀ a b, Exact "mul" (a.toInt * b.toInt) (fns.onWords "mul" [a, b])
  neg : ∀ a, Exact "neg" (-a.toInt) (fns.onWords "neg" [a])
  /-- Division and remainder refuse the divisor zero -/
  by_zero : ∀ name ∈ ["div", "rem"], ∀ a b,
    fns.onWords name [a, b] = refuse name "division by zero" ↔ b = 0
  /-- and the one quotient that is no word. -/
  overflow : ∀ name ∈ ["div", "rem"], ∀ a b,
    fns.onWords name [a, b] = refuse name "integer overflow" ↔ a = Int64.minValue ∧ b = -1
  /-- Otherwise they return quotient and remainder, truncated toward zero. -/
  divides : ∀ a b, b ≠ 0 → ¬(a = Int64.minValue ∧ b = -1) → ∃ q r : Int64,
    fns.onWords "div" [a, b] = .ok (.int q) ∧ fns.onWords "rem" [a, b] = .ok (.int r) ∧
    a.toInt = b.toInt * q.toInt + r.toInt ∧ |r.toInt| < |b.toInt| ∧
    (r.toInt = 0 ∨ r.toInt.sign = a.toInt.sign)
  lt : ∀ a b, fns.onWords "lt" [a, b] = .ok (.bool (a.toInt < b.toInt))
  le : ∀ a b, fns.onWords "le" [a, b] = .ok (.bool (a.toInt ≤ b.toInt))
  gt : ∀ a b, fns.onWords "gt" [a, b] = .ok (.bool (a.toInt > b.toInt))
  ge : ∀ a b, fns.onWords "ge" [a, b] = .ok (.bool (a.toInt ≥ b.toInt))
  /-- A comparison says what its swap says, and the opposite of its negation. -/
  compares : ∀ a b, ∃ x, fns.onWords "lt" [a, b] = .ok (.bool x) ∧
    fns.onWords "gt" [b, a] = .ok (.bool x) ∧ fns.onWords "ge" [a, b] = .ok (.bool !x) ∧
    fns.onWords "le" [b, a] = .ok (.bool !x)
  never_crashes : ∀ name args message, fns.call name args ≠ .error (.crash message)
  /-- Anything but an integer is a fault that names the function and the first such argument. -/
  refuses : ∀ name ∈ ["add", "sub", "mul", "div", "rem", "lt", "le", "gt", "ge"],
    ∀ s t : Term, s.asInt? = none ∨ t.asInt? = none → fns.call name [s, t] =
      refuse name ("expected an integer, got " ++ (if s.asInt? = none then s else t).text)
  refuses_neg : ∀ t : Term, t.asInt? = none →
    fns.call "neg" [t] = refuse "neg" ("expected an integer, got " ++ t.text)

/-- A call that crashes is a function that does. -/
theorem call_builtin_ne_crash (name : String) (args : Tuple) (message : Option String) :
    Functions.builtin.call name args ≠ .error (.crash message) := by
  intro crashed
  rw [call] at crashed
  split at crashed
  · cases crashed
  · next fn hfn =>
    split at crashed
    · next arity => exact not_crashes_builtin message ⟨name, fn, args, hfn, arity, crashed⟩
    · cases crashed

/-- The functions of two integers. -/
theorem exists_onIntegers {name : String}
    (listed : name ∈ ["add", "sub", "mul", "div", "rem", "lt", "le", "gt", "ge"]) :
    ∃ fn, Functions.builtin.get? name = some fn ∧ ∃ f, fn = Builtin.onIntegers name f := by
  simp only [List.mem_cons, List.not_mem_nil, or_false] at listed
  rcases listed with rfl | rfl | rfl | rfl | rfl | rfl | rfl | rfl | rfl
  all_goals
    refine ⟨_, rfl, ?_⟩
    dsimp only [Builtin.arithmetic, Builtin.division, Builtin.comparison]
    exact ⟨_, rfl⟩

/-- **The promises are kept**, and no result wraps. -/
theorem arithmetical_builtin : Functions.builtin.Arithmetical where
  add a b := Builtin.exact_exactly ..
  sub a b := Builtin.exact_exactly ..
  mul a b := Builtin.exact_exactly ..
  neg a := Builtin.exact_exactly ..
  by_zero name listed a b := by
    simp only [List.mem_cons, List.not_mem_nil, or_false] at listed
    rcases listed with rfl | rfl
    · exact Builtin.division_by_zero_iff Builtin.words_tdiv
    · exact Builtin.division_by_zero_iff Builtin.words_tmod
  overflow name listed a b := by
    simp only [List.mem_cons, List.not_mem_nil, or_false] at listed
    rcases listed with rfl | rfl
    · exact Builtin.division_overflow_iff Builtin.words_tdiv
    · exact Builtin.division_overflow_iff Builtin.words_tmod
  divides a b := Builtin.exists_quotient
  lt _ _ := rfl
  le _ _ := rfl
  gt _ _ := rfl
  ge _ _ := rfl
  compares a b := by
    have opposite : decide (b.toInt ≤ a.toInt) = !decide (a.toInt < b.toInt) := by
      rw [← decide_not, decide_eq_decide, Int.not_lt]
    exact ⟨_, rfl, rfl, opposite ▸ rfl, opposite ▸ rfl⟩
  never_crashes := call_builtin_ne_crash
  refuses name listed s t h := by
    obtain ⟨_, known, f, rfl⟩ := exists_onIntegers listed
    rw [call, known]
    exact Builtin.onIntegers_refuses h
  refuses_neg _ := Builtin.negation_refuses

example : Functions.builtin.onWords "div" [-7, 2] = .ok (.int (-3)) := rfl

example : Functions.builtin.onWords "rem" [-7, 2] = .ok (.int (-1)) := rfl

end Functions

end Datalog
