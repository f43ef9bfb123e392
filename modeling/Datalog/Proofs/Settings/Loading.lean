import Datalog.Proofs.Outcome
import Datalog.Proofs.Settings.Reading
import Datalog.Settings.Load

/-!
# Proofs/Settings/Loading — what loaded settings say

Settings are loaded from the environment, from a file and from the defaults: what the first of them
says about a setting counts.  Loading fails if a value is not of the right sort, and then if a size
that must not be zero is.  Settings that load are **valid**, and valid settings can be written as
environment variables from which they are loaded again, whatever a file says.
-/

namespace Datalog

namespace Settings

variable {values values' : List (String × Raw)} {name : String} {s : Settings}

/-! ## Named values -/

section Reads

variable {α : Type} {read : Raw → Option α} {default a : α}

/-- **What named values make of a setting**: the first value of its name, which has to be one, or
else the default. -/
def Reads (values : List (String × Raw)) (name : String) (read : Raw → Option α)
    (default a : α) : Prop :=
  (values.lookup name).elim (a = default) fun raw => read raw = some a

theorem field_ok_iff : field values name read default = .ok a ↔
    Reads values name read default a := by
  rw [field, Reads]
  cases values.lookup name with
  | none => simp [eq_comm]
  | some raw => cases h : read raw <;> simp [h]

/-- A value of another sort is the only thing that can be wrong with a setting, and it ends the
reading. -/
theorem field_bind {β : Type} {p : Prop} {f : α → Except SettingsError β}
    (h : ∀ a, Reads values name read default a → f a = .error .unreadable ∨ p) :
    (field values name read default >>= f) = .error .unreadable ∨ p := by
  cases ok : field values name read default with
  | ok a => exact h a (field_ok_iff.1 ok)
  | error e =>
    rw [field] at ok
    split at ok
    · cases ok
    · split at ok
      · cases ok
      · obtain rfl := Except.error.inj ok
        exact .inl rfl

theorem Reads.of_lookup {raw : Raw} (h : values.lookup name = some raw) (ok : read raw = some a) :
    Reads values name read default a := by
  rw [Reads, h]
  exact ok

/-- **What goes first counts**, and the rest where the first says nothing. -/
theorem reads_append : Reads (values ++ values') name read default a ↔
    if (values.lookup name).isSome then Reads values name read default a
    else Reads values' name read default a := by
  rw [Reads, Reads, Reads, List.lookup_append]
  cases values.lookup name <;> simp

end Reads

/-- **The settings that named values describe**, zero sizes included. -/
structure Described (values : List (String × Raw)) (s : Settings) : Prop where
  taskSize : Reads values "task_size" Raw.size? ({} : Settings).taskSize s.taskSize
  splitTaskSize :
    Reads values "smt_task_size" Raw.size? ({} : Settings).splitTaskSize s.splitTaskSize
  maxGeneration :
    Reads values "eager_eval_max_gen" Raw.size? ({} : Settings).maxGeneration s.maxGeneration
  eagerBatchSize :
    Reads values "eager_eval_batch_size" Raw.size? ({} : Settings).eagerBatchSize s.eagerBatchSize
  unification :
    Reads values "unification" Raw.unification? ({} : Settings).unification s.unification
  parallelism : Reads values "parallelism" Raw.size? ({} : Settings).parallelism s.parallelism
  recordWork : Reads values "record_work" Raw.bool? ({} : Settings).recordWork s.recordWork

/-- The settings, unless a size is zero. -/
def checked (s : Settings) : Except SettingsError Settings :=
  match s.zeroSize? with
  | some name => .error (.zero name)
  | none => .ok s

theorem checked_ok_iff {s' : Settings} : s.checked = .ok s' ↔ s.zeroSize? = none ∧ s = s' := by
  rw [checked]
  cases s.zeroSize? <;> simp

theorem checked_zero_iff : s.checked = .error (.zero name) ↔ s.zeroSize? = some name := by
  rw [checked]
  cases s.zeroSize? <;> simp

theorem Described.ofValues_eq (h : Described values s) : ofValues values = s.checked := by
  rw [ofValues, field_ok_iff.2 h.taskSize, field_ok_iff.2 h.splitTaskSize,
    field_ok_iff.2 h.maxGeneration, field_ok_iff.2 h.eagerBatchSize, field_ok_iff.2 h.unification,
    field_ok_iff.2 h.parallelism, field_ok_iff.2 h.recordWork]
  rfl

theorem unreadable_or_described (values : List (String × Raw)) :
    ofValues values = .error .unreadable ∨ ∃ s, Described values s := by
  unfold ofValues
  refine field_bind fun a₁ h₁ => field_bind fun a₂ h₂ => field_bind fun a₃ h₃ => ?_
  refine field_bind fun a₄ h₄ => field_bind fun a₅ h₅ => field_bind fun a₆ h₆ => ?_
  exact field_bind fun a₇ h₇ => .inr ⟨⟨a₁, a₂, a₃, a₄, a₅, a₆, a₇⟩, ⟨h₁, h₂, h₃, h₄, h₅, h₆, h₇⟩⟩

/-- **Named values are read as a whole**: they describe settings, and a zero size is looked for in
these, or they cannot be read. -/
theorem ofValues_eq_iff {r : Except SettingsError Settings} : ofValues values = r ↔
    (r = .error .unreadable ∧ ∀ s, ¬Described values s) ∨
      ∃ s, Described values s ∧ s.checked = r := by
  constructor
  · rintro rfl
    by_cases h : ∃ s, Described values s
    · obtain ⟨s, described⟩ := h
      exact .inr ⟨s, described, described.ofValues_eq.symm⟩
    · exact .inl ⟨(unreadable_or_described values).resolve_right h, not_exists.1 h⟩
  · rintro (⟨rfl, none⟩ | ⟨s, described, rfl⟩)
    · exact (unreadable_or_described values).resolve_right (not_exists.2 none)
    · exact described.ofValues_eq

theorem ofValues_ok_iff : ofValues values = .ok s ↔ Described values s ∧ s.zeroSize? = none := by
  rw [ofValues_eq_iff]
  constructor
  · rintro (⟨h, _⟩ | ⟨s, described, h⟩)
    · cases h
    · obtain ⟨nonzero, rfl⟩ := checked_ok_iff.1 h
      exact ⟨described, nonzero⟩
  · exact fun ⟨described, nonzero⟩ => .inr ⟨s, described, checked_ok_iff.2 ⟨nonzero, rfl⟩⟩

/-! ## Sizes -/

theorem zeroSize?_eq_none_iff : s.zeroSize? = none ↔
    0 < s.taskSize ∧ 0 < s.splitTaskSize ∧ 0 < s.eagerBatchSize := by
  simp [zeroSize?, Nat.pos_iff_ne_zero]

/-- **A zero size is reported by its name**, the first one in the order of the settings. -/
theorem mem_names_of_zeroSize? (h : s.zeroSize? = some name) : name ∈ names := by
  obtain ⟨e, found, rfl⟩ := Option.map_eq_some_iff.1 h
  have listed := List.mem_of_find?_eq_some found
  simp only [List.mem_cons, List.not_mem_nil, or_false] at listed
  rcases listed with rfl | rfl | rfl <;> simp [names]

/-- The settings that are numbers. -/
def sizes (s : Settings) : List Nat :=
  [s.taskSize, s.splitTaskSize, s.maxGeneration, s.eagerBatchSize, s.parallelism]

/-- **Valid settings**: no size is zero that must not be, and each of them is a machine word. -/
structure Valid (s : Settings) : Prop where
  positive : 0 < s.taskSize ∧ 0 < s.splitTaskSize ∧ 0 < s.eagerBatchSize
  word : ∀ n ∈ s.sizes, n < UInt64.size

theorem valid_default : ({} : Settings).Valid := ⟨by decide, by decide⟩

end Settings

/-! ## Loading -/

/-- A value as it is written in a variable. -/
def Raw.text : Raw → String
  | .int n => toString n
  | .bool b => toString b
  | .str text => text
  | .other => ""

namespace Settings

variable {values : List (String × Raw)} {name : String} {s : Settings} {file : Option String}
  {environment : List (String × String)}

/-- What a file says; a file that is not there says nothing. -/
def fileValues? (file : Option String) : Option (List (String × Raw)) :=
  file.elim (some []) Toml.document

theorem load_eq (file : Option String) (environment : List (String × String)) :
    load file environment = match fileValues? file with
      | some values => ofValues (Environment.values environment ++ values)
      | none => .error .unreadable := by
  cases file with
  | none => rfl
  | some text =>
    rw [load.eq_def]
    dsimp only [fileValues?, Option.elim_some]
    cases Toml.document text <;> rfl

/-- **Settings are loaded as they are described**: by the environment, where that does not say
anything by the file, and where neither does by the defaults. -/
theorem load_ok_iff : load file environment = .ok s ↔ ∃ values, fileValues? file = some values ∧
    Described (Environment.values environment ++ values) s ∧ s.zeroSize? = none := by
  rw [load_eq]
  cases fileValues? file <;> simp [ofValues_ok_iff]

example : load (some "task_size = 4\nunification = \"inline\"") [("Fixlog_Task_Size", "2")] =
    .ok { taskSize := 2, unification := .inline } := by decide +kernel

/-- **A zero size is reported by the name of a setting**, once all values have been read. -/
theorem exists_of_load_zero (h : load file environment = .error (.zero name)) :
    name ∈ names ∧ ∃ values s, fileValues? file = some values ∧
      Described (Environment.values environment ++ values) s ∧ s.zeroSize? = some name := by
  rw [load_eq] at h
  split at h
  · next values read =>
    obtain ⟨⟨⟩, _⟩ | ⟨s, described, zero⟩ := ofValues_eq_iff.1 h
    have zero := checked_zero_iff.1 zero
    exact ⟨mem_names_of_zeroSize? zero, values, s, read, described, zero⟩
  · cases h

/-- The settings as named values, in the order of the names. -/
def asValues (s : Settings) : List Raw :=
  [.int s.taskSize, .int s.splitTaskSize, .int s.maxGeneration, .int s.eagerBatchSize,
    .str (match s.unification with
      | .inline => "inline"
      | .assign => "assign"),
    .int s.parallelism, .bool s.recordWork]

/-- **The environment variables that say what the settings are.** -/
def asVariables (s : Settings) : List (String × String) :=
  (names.zip s.asValues).map fun e => ("FIXLOG_" ++ e.1.toUpper, e.2.text)

theorem value_text (word : ∀ n ∈ s.sizes, n < UInt64.size) : ∀ raw ∈ s.asValues,
    Environment.value raw.text = raw := by
  have number {n : Nat} (h : n ∈ s.sizes) : Environment.value (Raw.int n).text = .int n :=
    Environment.value_toString (word n h)
  have truth (b : Bool) : Environment.value (Raw.bool b).text = .bool b := by
    cases b <;> decide
  simp only [asValues, List.mem_cons, List.not_mem_nil, or_false, forall_eq_or_imp, forall_eq]
  refine ⟨number ?_, number ?_, number ?_, number ?_, ?_, number ?_, truth _⟩
  · simp [sizes]
  · simp [sizes]
  · simp [sizes]
  · simp [sizes]
  · cases s.unification <;> decide
  · simp [sizes]

/-- Each variable is read back as what it says, the last one first. -/
theorem values_asVariables (word : ∀ n ∈ s.sizes, n < UInt64.size) :
    Environment.values s.asVariables = (names.zip s.asValues).reverse := by
  have named : ∀ name ∈ names,
      Environment.valueName? ("FIXLOG_" ++ name.toUpper) = some name := by decide +kernel
  rw [Environment.values, asVariables, List.filterMap_map]
  refine congrArg List.reverse ((List.filterMap_congr fun e he => ?_).trans List.filterMap_some)
  obtain ⟨hname, hraw⟩ := List.of_mem_zip he
  simp only [Function.comp_apply, named _ hname, value_text word _ hraw, Option.map_some]

theorem described_asVariables (word : ∀ n ∈ s.sizes, n < UInt64.size) :
    Described (Environment.values s.asVariables ++ values) s := by
  rw [values_asVariables word]
  exact {
    taskSize := .of_lookup rfl rfl
    splitTaskSize := .of_lookup rfl rfl
    maxGeneration := .of_lookup rfl rfl
    eagerBatchSize := .of_lookup rfl rfl
    unification := .of_lookup rfl (by cases s.unification <;> rfl)
    parallelism := .of_lookup rfl rfl
    recordWork := .of_lookup rfl rfl }

/-- **Valid settings can be loaded**, whatever a file says that can be read. -/
theorem load_asVariables (valid : s.Valid) (ok : (fileValues? file).isSome = true) :
    load file s.asVariables = .ok s := by
  obtain ⟨values, ok⟩ := Option.isSome_iff_exists.1 ok
  exact load_ok_iff.2 ⟨values, ok, described_asVariables valid.word,
    zeroSize?_eq_none_iff.2 valid.positive⟩

theorem Reads.word {d n : Nat} (h : Reads values name Raw.size? d n) (hd : d < UInt64.size)
    (words : ∀ n : Nat, (name, .int n) ∈ values → n < UInt64.size) : n < UInt64.size := by
  rw [Reads] at h
  cases found : values.lookup name with
  | none =>
    rw [found] at h
    exact h ▸ hd
  | some raw =>
    rw [found] at h
    obtain ⟨pre, post, rfl, _⟩ := List.lookup_eq_some_iff.1 found
    cases raw with
    | int m =>
      cases m with
      | ofNat m =>
        obtain rfl := Option.some.inj h
        exact words m (List.mem_append_right _ (List.mem_cons_self ..))
      | negSucc m => cases h
    | bool | str | other => cases h

/-- **Settings that have been loaded are valid.** -/
theorem valid_of_load (h : load file environment = .ok s) : s.Valid := by
  obtain ⟨values, read, described, nonzero⟩ := load_ok_iff.1 h
  have words (name : String) (n : Nat)
      (mem : (name, .int n) ∈ Environment.values environment ++ values) : n < UInt64.size := by
    rcases List.mem_append.1 mem with mem | mem
    · obtain ⟨⟨_, text⟩, _, eq⟩ := List.mem_filterMap.1 (List.mem_reverse.1 mem)
      obtain ⟨_, _, eq⟩ := Option.map_eq_some_iff.1 eq
      exact Environment.word_of_value (Prod.mk.inj eq).2
    · cases file with
      | none =>
        obtain rfl := Option.some.inj read
        cases mem
      | some text => exact Toml.word_of_body read mem
  refine ⟨zeroSize?_eq_none_iff.1 nonzero, fun n hn => ?_⟩
  simp only [sizes, List.mem_cons, List.not_mem_nil, or_false] at hn
  rcases hn with rfl | rfl | rfl | rfl | rfl
  · exact described.taskSize.word (by decide) (words _)
  · exact described.splitTaskSize.word (by decide) (words _)
  · exact described.maxGeneration.word (by decide) (words _)
  · exact described.eagerBatchSize.word (by decide) (words _)
  · exact described.parallelism.word (by decide) (words _)

/-- **The settings that can be loaded are the valid ones.** -/
theorem exists_load_iff : (∃ file environment, load file environment = .ok s) ↔ s.Valid :=
  ⟨fun ⟨_, _, h⟩ => valid_of_load h, fun valid => ⟨none, s.asVariables, load_asVariables valid rfl⟩⟩

end Settings

end Datalog
