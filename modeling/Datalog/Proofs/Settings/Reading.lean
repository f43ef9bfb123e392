import Mathlib.Data.Option.Basic
import Datalog.Settings.Environment
import Datalog.Settings.Toml.Document

/-!
# Proofs/Settings/Reading — numbers in variables and in files

A number that is written out is read back, and every number that is read is a machine word: a
variable or a line that says another one is not read as a number, or not at all.
-/

namespace Datalog

/-! ## Numbers -/

namespace Text

theorem digitValue?_of_isDigit {c : Char} (h : c.isDigit = true) :
    digitValue? c = some (c.toNat - '0'.toNat) :=
  if_pos h

theorem sub_lt_of_isDigit {c : Char} (h : c.isDigit = true) : c.toNat - '0'.toNat < 10 := by
  have := Char.isDigit_iff_toNat.1 h
  simp only [Char.reduceToNat] at *
  omega

/-- Decimal digits are read from left to right, `n` being the number that those before them write. -/
theorem foldlM_digits {cs : List Char} (digits : ∀ c ∈ cs, c.isDigit = true) (n : Nat) :
    cs.foldlM (fun n c => do
      let d ← digitValue? c
      guard (d < 10)
      return n * 10 + d) n = some (Nat.ofDigitChars 10 cs n) := by
  induction cs generalizing n with
  | nil => rfl
  | cons c cs ih =>
    have hc := digits c (List.mem_cons_self ..)
    rw [List.foldlM_cons, digitValue?_of_isDigit hc, Nat.ofDigitChars_cons, Nat.mul_comm 10 n]
    simp only [Option.bind_eq_bind, Option.bind_some, guard, if_pos (sub_lt_of_isDigit hc)]
    exact ih (fun c h => digits c (List.mem_cons_of_mem _ h)) _

/-- **A number is read as it is written.** -/
theorem natural?_toDigits (n : Nat) : natural? 10 (Nat.toDigits 10 n) = some n := by
  have digits : ∀ c ∈ Nat.toDigits 10 n, c.isDigit = true := fun c hc =>
    Nat.isDigit_of_mem_toDigits (by decide) (by decide) hc
  rw [natural?, if_neg (by simp [Nat.toDigits_ne_nil]), foldlM_digits digits,
    Nat.ofDigitChars_ten_toDigits]

theorem trim_eq_self {cs : List Char} (h : ∀ c ∈ cs, isBlank c = false) : trim cs = cs := by
  have drop : ∀ cs : List Char, (∀ c ∈ cs, isBlank c = false) → cs.dropWhile isBlank = cs := by
    intro cs h
    cases cs with
    | nil => rfl
    | cons c cs => rw [List.dropWhile_cons_of_neg (by simp [h c (List.mem_cons_self ..)])]
  rw [trim, drop cs h, drop _ fun c hc => h c (List.mem_reverse.1 hc), List.reverse_reverse]

theorem isBlank_of_isDigit {c : Char} (h : c.isDigit = true) : isBlank c = false := by
  have := Char.isDigit_iff_toNat.1 h
  simp only [Char.reduceToNat] at this
  simp [isBlank]
  omega

end Text

/-! ## The environment -/

namespace Environment

/-- A number is none of the other things that a text can be. -/
theorem value_toString {n : Nat} (h : n < UInt64.size) : value (toString n) = .int n := by
  have digits : ∀ c ∈ Nat.toDigits 10 n, c.isDigit = true := fun c hc =>
    Nat.isDigit_of_mem_toDigits (by decide) (by decide) hc
  have read : integer? (Nat.toDigits 10 n) = some (n : Int) := by
    rw [integer?.eq_def]
    split
    · next eq => cases digits '-' (eq ▸ List.mem_cons_self ..)
    · next eq => cases digits '+' (eq ▸ List.mem_cons_self ..)
    · simp [Text.natural?_toDigits, guard, h]
  have text : Text.trim (toString n).toList = Nat.toDigits 10 n := by
    rw [Nat.toString_eq_ofList_toDigits, String.toList_ofList]
    exact Text.trim_eq_self fun c hc => Text.isBlank_of_isDigit (digits c hc)
  rw [value, text]
  split
  · next eq => exact absurd eq Nat.toDigits_ne_nil
  · next eq => cases digits '"' (eq ▸ List.mem_cons_self ..)
  · next eq => cases digits '[' (eq ▸ List.mem_cons_self ..)
  · next eq => cases digits '{' (eq ▸ List.mem_cons_self ..)
  · next eq => cases digits '\'' (eq ▸ List.mem_cons_self ..)
  · rw [if_neg, if_neg, read]
    · exact fun eq => nomatch digits 'f' (eq ▸ List.mem_cons_self ..)
    · exact fun eq => nomatch digits 't' (eq ▸ List.mem_cons_self ..)

/-- A number in a variable is a machine word. -/
theorem lt_of_integer? {cs : List Char} {n : Nat} (h : integer? cs = some (n : Int)) :
    n < UInt64.size := by
  rw [integer?.eq_def] at h
  split at h
  · simp only [Option.bind_eq_bind, Option.bind_eq_some_iff, Option.guard_eq_some', Option.pure_def,
      Option.some.injEq] at h
    obtain ⟨m, _, _, _, h⟩ := h
    obtain rfl : n = 0 := by simp at h; omega
    decide
  all_goals
    simp only [Option.bind_eq_bind, Option.bind_eq_some_iff, Option.guard_eq_some', Option.pure_def,
      Option.some.injEq] at h
    obtain ⟨m, _, _, lt, h⟩ := h
    obtain rfl := Int.ofNat.inj h
    exact lt

/-- The text of a variable is a number or something else. -/
theorem word_of_value {text : String} {n : Nat} (h : value text = .int n) : n < UInt64.size := by
  rw [value] at h
  split at h
  · cases h
  · split at h <;> cases h
  all_goals try cases h
  split at h
  · cases h
  · split at h
    · cases h
    · split at h
      · next read =>
        obtain rfl := Raw.int.inj h
        exact lt_of_integer? read
      · cases h

end Environment

/-! ## Files -/

namespace Toml

theorem word_of_integer? {cs : List Char} {n : Nat} (h : integer? cs = some (n : Int)) :
    n < UInt64.size := by
  have bound : ∀ x : Option Int, (do
      let n ← x
      guard (Int64.minValue.toInt ≤ n ∧ n ≤ Int64.maxValue.toInt)
      return n) = some (n : Int) → n < UInt64.size := by
    intro x h
    simp only [Option.bind_eq_bind, Option.bind_eq_some_iff, Option.guard_eq_some',
      Option.pure_def, Option.some.injEq] at h
    obtain ⟨m, _, _, ⟨_, le⟩, rfl⟩ := h
    have : (n : Int) ≤ 9223372036854775807 := le
    simp only [UInt64.size]
    omega
  rw [integer?.eq_def] at h
  split at h <;> exact bound _ h

theorem word_of_bare? {cs : List Char} {n : Nat} (h : bare? cs = some (.int n)) :
    n < UInt64.size := by
  rw [bare?] at h
  split at h
  · cases h
  · cases h
  · split at h
    · next read =>
      obtain rfl := Raw.int.inj (Option.some.inj h)
      exact word_of_integer? read
    · split at h <;> cases h

theorem word_of_value {fuel : Nat} {cs rest : List Char} {n : Nat}
    (h : value fuel cs = some (.int n, rest)) : n < UInt64.size := by
  cases fuel with
  | zero => rw [value] at h; cases h
  | succ fuel =>
    rw [value.eq_def] at h
    dsimp only at h
    split at h
    · obtain ⟨_, _, h⟩ := Option.bind_eq_some_iff.1 h
      cases h
    · split at h
      · cases h
      · obtain ⟨_, _, h⟩ := Option.bind_eq_some_iff.1 h
        obtain ⟨_, _, h⟩ := Option.bind_eq_some_iff.1 h
        cases h
    · obtain ⟨_, _, h⟩ := Option.bind_eq_some_iff.1 h
      cases h
    · obtain ⟨_, _, h⟩ := Option.bind_eq_some_iff.1 h
      cases h
    · obtain ⟨raw, read, h⟩ := Option.bind_eq_some_iff.1 h
      obtain rfl := (Prod.mk.inj (Option.some.inj h)).1
      exact word_of_bare? read

/-- **A line says one thing at most**, and the lines below it say the rest. -/
theorem body_cases {fuel : Nat} {defs : Definitions} {path : Path} {cs : List Char}
    {values : List (String × Raw)} (h : body (fuel + 1) defs path cs = some values) :
    values = [] ∨ ∃ defs' path' rest below, body fuel defs' path' rest = some below ∧
      (values = below ∨ ∃ name raw, values = (name, raw) :: below ∧
        (raw = .other ∨ ∃ cs fuel rest, value fuel cs = some (raw, rest))) := by
  rw [body.eq_def] at h
  obtain ⟨_, _, h⟩ := Option.bind_eq_some_iff.1 h
  split at h
  · exact .inl (Option.some.inj h).symm
  · obtain ⟨⟨names, _⟩, _, h⟩ := Option.bind_eq_some_iff.1 h
    dsimp only at h
    split at h
    · obtain ⟨_, _, h⟩ := Option.bind_eq_some_iff.1 h
      obtain ⟨_, _, h⟩ := Option.bind_eq_some_iff.1 h
      obtain ⟨below, ok, h⟩ := Option.bind_eq_some_iff.1 h
      obtain ⟨_, _, h⟩ := Option.bind_eq_some_iff.1 h
      exact .inr ⟨_, _, _, below, ok, .inr ⟨_, _, (Option.some.inj h).symm, .inl rfl⟩⟩
    · cases h
  · obtain ⟨⟨names, _⟩, _, h⟩ := Option.bind_eq_some_iff.1 h
    dsimp only at h
    split at h
    · obtain ⟨_, _, h⟩ := Option.bind_eq_some_iff.1 h
      obtain ⟨_, _, h⟩ := Option.bind_eq_some_iff.1 h
      obtain ⟨below, ok, h⟩ := Option.bind_eq_some_iff.1 h
      obtain ⟨_, _, h⟩ := Option.bind_eq_some_iff.1 h
      exact .inr ⟨_, _, _, below, ok, .inr ⟨_, _, (Option.some.inj h).symm, .inl rfl⟩⟩
    · cases h
  · obtain ⟨⟨names, _⟩, _, h⟩ := Option.bind_eq_some_iff.1 h
    dsimp only at h
    split at h
    · obtain ⟨⟨raw, _⟩, read, h⟩ := Option.bind_eq_some_iff.1 h
      obtain ⟨_, _, h⟩ := Option.bind_eq_some_iff.1 h
      obtain ⟨_, _, h⟩ := Option.bind_eq_some_iff.1 h
      obtain ⟨below, ok, h⟩ := Option.bind_eq_some_iff.1 h
      refine .inr ⟨_, _, _, below, ok, ?_⟩
      split at h
      · exact .inr ⟨_, _, (Option.some.inj h).symm, .inr ⟨_, _, _, read⟩⟩
      · exact .inr ⟨_, _, (Option.some.inj h).symm, .inl rfl⟩
      · exact .inl (Option.some.inj h).symm
    · cases h

/-- **A number in a file is a machine word**, wherever in the file it stands. -/
theorem word_of_body {fuel : Nat} {defs : Definitions} {path : Path} {cs : List Char}
    {values : List (String × Raw)} (h : body fuel defs path cs = some values) {name : String}
    {n : Nat} (mem : (name, .int n) ∈ values) : n < UInt64.size := by
  induction fuel generalizing defs path cs values with
  | zero => cases h
  | succ fuel ih =>
    obtain rfl | ⟨_, _, _, below, ok, rfl | ⟨_, raw, rfl, said⟩⟩ := body_cases h
    · cases mem
    · exact ih ok mem
    · rcases List.mem_cons.1 mem with eq | mem
      · obtain ⟨rfl, rfl⟩ := Prod.mk.inj eq
        obtain ⟨⟨⟩⟩ | ⟨_, _, _, read⟩ := said
        exact word_of_value read
      · exact ih ok mem

end Toml

end Datalog
