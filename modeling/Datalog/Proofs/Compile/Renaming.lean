import Datalog.Proofs.Compile.Names

/-!
# Proofs/Compile/Renaming — compilation does not look at names

If a one-to-one renaming takes the variables numbered from one counter on to those from another, it
takes what compilation yields from the first counter to what it yields, for the renamed rule, from
the second (`Rule.compile_rename`).  So the counter that compilation starts from shows in nothing
but the numbers of the invented variables.
-/

namespace Datalog

variable {ρ : Var → Var}

/-! ## Numbering -/

/-- **A renaming takes a rule's clause to the renamed rule's clause**, and its rejection to the
renamed rule's rejection, if it takes the variables still to be invented to each other; then it
does so afterwards. -/
theorem Rule.compile_rename {mode : Unification} {delta : Option Nat} {rule : Rule}
    {next next' : Nat} (hρ : Function.Injective ρ)
    (fresh : ∀ i, ρ (.fresh (next + i)) = .fresh (next' + i)) :
    (∀ c n, rule.compile mode delta next = .ok c n →
      ∃ n', (rule.rename ρ).compile mode delta next' = .ok (c.rename ρ) n' ∧
        ∀ i, ρ (.fresh (n + i)) = .fresh (n' + i)) ∧
    ∀ e n, rule.compile mode delta next = .error e n →
      ∃ n', (rule.rename ρ).compile mode delta next' = .error (e.rename ρ) n' ∧
        ∀ i, ρ (.fresh (n + i)) = .fresh (n' + i) := by
  have start : ({ next } : Draft).Renames ρ { next := next' } :=
    ⟨rfl, fun v => ⟨nofun, nofun⟩, fun v => rfl, fresh⟩
  have ends : Compile.Ends ρ _ (Compile.clause rule mode delta { next }) _ :=
    Compile.alike_clause hρ delta _ _ start
  unfold compile
  generalize Compile.clause rule mode delta { next } = result,
    Compile.clause (rule.rename ρ) mode delta { next := next' } = result' at ends
  constructor
  · rintro c n ok
    cases ends with
    | ok same hd =>
      cases ok
      exact ⟨_, by rw [same], hd.fresh⟩
    | error => cases ok
  · rintro e n error
    cases ends with
    | ok => cases error
    | error fresh =>
      cases error
      exact ⟨_, rfl, fresh⟩

/-! ### Variables that occur

A renaming is read only at the variables that occur. -/

section

variable {π : Var → Var}

theorem Term.rename_congr {t : Term} (h : ∀ v ∈ t.occurrences, π v = ρ v) :
    t.rename π = t.rename ρ := by
  have all {args : List Term}
      (ih : ∀ a ∈ args, (∀ v ∈ a.occurrences, π v = ρ v) → a.rename π = a.rename ρ)
      (h : ∀ v ∈ occurrencesOf args, π v = ρ v) : renameAll π args = renameAll ρ args := by
    rw [renameAll_eq_map, renameAll_eq_map]
    exact List.map_congr_left fun a ha => ih a ha fun v hv =>
      h v (mem_occurrencesOf.2 ⟨a, ha, hv⟩)
  induction t with
  | var v => exact congrArg var (h v (List.mem_singleton.2 rfl))
  | lit => rfl
  | ctor f args ih | call f args ih => rw [rename, rename, all ih h]

theorem Atom.rename_congr {a : Atom} (h : ∀ v ∈ a.occurrences, π v = ρ v) :
    a.rename π = a.rename ρ := by
  have args : a.args.map (Term.rename π) = a.args.map (Term.rename ρ) :=
    List.map_congr_left fun t ht => Term.rename_congr fun v hv =>
      h v (List.mem_flatMap.2 ⟨t, ht, hv⟩)
  rw [rename, rename, args]

theorem Literal.rename_congr {l : Literal} (h : ∀ v ∈ l.occurrences, π v = ρ v) :
    l.rename π = l.rename ρ := by
  cases l with
  | atom a => exact congrArg atom (Atom.rename_congr h)
  | unify l r negated =>
    rw [rename, rename, Term.rename_congr fun v hv => h v (List.mem_append_left _ hv),
      Term.rename_congr fun v hv => h v (List.mem_append_right _ hv)]

theorem Rule.rename_congr {rule : Rule} (h : ∀ v ∈ rule.occurrences, π v = ρ v) :
    rule.rename π = rule.rename ρ := by
  have body : rule.body.map (Literal.rename π) = rule.body.map (Literal.rename ρ) :=
    List.map_congr_left fun l hl => Literal.rename_congr fun v hv =>
      h v (List.mem_append_right _ (List.mem_flatMap.2 ⟨l, hl, hv⟩))
  rw [rename, rename, body, Atom.rename_congr fun v hv => h v (List.mem_append_left _ hv)]

end

/-! ### Nothing is renamed -/

theorem Term.rename_id (t : Term) : t.rename id = t := by
  have all {args : List Term} (ih : ∀ a ∈ args, a.rename id = a) : renameAll id args = args := by
    rw [renameAll_eq_map]
    exact (List.map_congr_left ih).trans (List.map_id' args)
  induction t with
  | var | lit => rfl
  | ctor f args ih | call f args ih => rw [rename, all ih]

theorem Atom.rename_id (a : Atom) : a.rename id = a := by
  rw [rename, funext Term.rename_id, List.map_id']

theorem Literal.rename_id (l : Literal) : l.rename id = l := by
  cases l with
  | atom a => exact congrArg atom a.rename_id
  | unify l r negated => rw [rename, l.rename_id, r.rename_id]

theorem Rule.rename_id (rule : Rule) : rule.rename id = rule := by
  rw [rename, rule.head.rename_id, funext Literal.rename_id, List.map_id']

theorem Rule.rename_eq_self {rule : Rule} (h : ∀ v ∈ rule.occurrences, ρ v = v) :
    rule.rename ρ = rule :=
  (Rule.rename_congr h).trans rule.rename_id

theorem Step.rename_id (s : Step) : s.rename id = s := by
  have term : Term.rename id = id := funext Term.rename_id
  have arg : Arg.rename id = id := funext fun a => by cases a <;> simp [Arg.rename, term]
  cases s <;> simp [Step.rename, Goal.rename, term, arg]

theorem Head.rename_id (h : Head) : h.rename id = h := by
  rw [rename, funext Term.rename_id, List.map_id']

theorem Clause.rename_id (c : Clause) : c.rename id = c := by
  rw [rename, c.head.rename_id, funext Step.rename_id, List.map_id']

/-- The renaming that leaves all variables alone leaves a rejection alone. -/
theorem Rejection.rename_id (e : Rejection) : e.rename id = e := by
  cases e <;> simp only [Rejection.rename, Atom.rename_id, Literal.rename_id, Rule.rename_id,
    Clause.rename_id, List.map_id]

/-! ### Numbers move up -/

namespace Var

variable {n k : Nat}

theorem shift_of_lt {v : Var} (h : v.number < n) : v.shift n k = v :=
  if_neg (Nat.not_le_of_lt h)

theorem shift_fresh (n k i : Nat) : (fresh (n + i)).shift n k = fresh (n + k + i) := by
  have moved : n + i + k = n + k + i := by omega
  exact (if_pos (Nat.le_add_right n i)).trans (congrArg fresh moved)

theorem shift_injective (n k : Nat) : Function.Injective (shift n k) := by
  rintro ⟨s, i⟩ ⟨t, j⟩ h
  unfold shift at h
  dsimp only at h
  split at h <;> split at h <;> obtain ⟨name, number⟩ := Var.mk.inj h <;>
    exact congrArg₂ Var.mk name (by omega)

end Var

theorem Rejection.Like.symm {vs : List Var} {e e' : Rejection} (h : e.Like vs e') :
    e'.Like vs e := by
  obtain ⟨ρ, ρ', hρ, hρ', fixed, same⟩ := h
  exact ⟨ρ', ρ, hρ', hρ, fun v hv => (fixed v hv).symm, same.symm⟩

/-- **A rule is refused alike from any counter.** -/
theorem Rule.like_of_refused {mode : Unification} {delta : Option Nat} {rule : Rule}
    {next next' n n' : Nat} {e e' : Rejection}
    (below : ∀ v ∈ rule.occurrences, v.number < next)
    (below' : ∀ v ∈ rule.occurrences, v.number < next')
    (h : rule.compile mode delta next = .error e n)
    (h' : rule.compile mode delta next' = .error e' n') : e.Like rule.occurrences e' := by
  -- the rejection from the lower counter is the other one moved down
  have up {next k n n' : Nat} {e e' : Rejection} (below : ∀ v ∈ rule.occurrences, v.number < next)
      (h : rule.compile mode delta next = .error e n)
      (h' : rule.compile mode delta (next + k) = .error e' n') : e.Like rule.occurrences e' := by
    have fixed : ∀ v ∈ rule.occurrences, Var.shift next k v = v := fun v hv =>
      Var.shift_of_lt (below v hv)
    obtain ⟨_, moved, _⟩ := (compile_rename (Var.shift_injective next k)
      (Var.shift_fresh next k)).2 e n h
    rw [rename_eq_self fixed, h'] at moved
    cases moved
    exact ⟨_, id, Var.shift_injective next k, Function.injective_id,
      fun v hv => ⟨fixed v hv, rfl⟩, (Rejection.rename_id _).symm⟩
  rcases Nat.le_total next next' with hle | hle
  · obtain ⟨k, rfl⟩ := Nat.exists_eq_add_of_le hle
    exact up below h h'
  · obtain ⟨k, rfl⟩ := Nat.exists_eq_add_of_le hle
    exact (up below' h' h).symm

end Datalog
