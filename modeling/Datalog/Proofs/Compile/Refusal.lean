import Datalog.Proofs.Compile.Causes

/-!
# Proofs/Compile/Refusal — compilation refuses what is wrong with a rule

A rule is refused exactly for the cause that it shows as it is written (`Rule.refusal`), in either
mode and for any marked atom, and compilation stops at the same place.
-/

namespace Datalog

namespace Rule

variable {mode : Unification} {delta : Option Nat} {rule : Rule} {next : Nat}

theorem forM_marked (rule : Rule) (mode : Unification) (delta : Option Nat) :
    (rule.body.zipIdx.forM fun (l, i) => Compile.literal rule mode (delta = some i) l) =
      (rule.marked delta).forM fun e => Compile.literal rule mode e.2 e.1 := by
  rw [marked, List.forM_eq_forM, List.forM_eq_forM, List.forM_map]

theorem map_fst_marked (rule : Rule) (delta : Option Nat) :
    (rule.marked delta).map Prod.fst = rule.body := by
  rw [marked, List.map_map]
  exact List.zipIdx_map_fst 0 rule.body

/-- The head is looked at first. -/
theorem clause_eq : Compile.clause rule mode delta =
    match rule.headRejection with
    | some e => throw e
    | none => do
      (rule.marked delta).forM fun e => Compile.literal rule mode e.2 e.1
      let head ← Compile.head rule
      return ⟨head, (← get).steps⟩ := by
  rw [← forM_marked, headRejection]
  unfold Compile.clause
  by_cases arity : rule.head.HasArity
  · rw [if_pos arity, if_neg (not_not.2 arity)]
    split <;> rfl
  · rw [if_neg arity, if_pos arity]
    rfl

/-- A rule whose head can be derived is refused at a literal or at the head. -/
theorem clause_error_iff {d d' : Draft} {e : Rejection} (derivable : rule.headRejection = none) :
    Compile.clause rule mode delta d = .error e d' ↔
      ((rule.marked delta).forM fun e => Compile.literal rule mode e.2 e.1) d = .error e d' ∨
      ∃ d₁, ((rule.marked delta).forM fun e => Compile.literal rule mode e.2 e.1) d = .ok () d₁ ∧
        Compile.head rule d₁ = .error e d' := by
  rw [clause_eq, derivable]
  dsimp only
  rw [Outcome.bind_error_iff]
  refine or_congr_right ⟨?_, ?_⟩
  · rintro ⟨⟨⟩, d₁, body, error⟩
    refine ⟨d₁, body, (Outcome.bind_error_iff.1 error).resolve_right ?_⟩
    rintro ⟨h, d₂, _, error⟩
    cases error
  · rintro ⟨d₁, body, error⟩
    exact ⟨(), d₁, body, Outcome.bind_error_iff.2 (.inl error)⟩

/-- **Where compilation stops**, in terms of the marked literals. -/
theorem stopsAt_literal_iff {e : Rejection} {i : Nat} :
    rule.StopsAt mode delta next e (.literal i) ↔ rule.headRejection = none ∧
      ∃ x d d', (rule.marked delta)[i]? = some x ∧
        (((rule.marked delta).take i).forM fun e => Compile.literal rule mode e.2 e.1) { next } =
          .ok () d ∧ Compile.literal rule mode x.2 x.1 d = .error e d' := by
  have before : ((rule.body.zipIdx.take i).forM fun (l, i) =>
      Compile.literal rule mode (delta = some i) l) =
      ((rule.marked delta).take i).forM fun e => Compile.literal rule mode e.2 e.1 := by
    rw [marked, ← List.map_take, List.forM_eq_forM, List.forM_eq_forM, List.forM_map]
  have entry : (rule.marked delta)[i]? =
      rule.body[i]?.map fun l => (l, decide (delta = some i)) := by
    rw [marked, List.getElem?_map, List.getElem?_zipIdx, Option.map_map, Nat.zero_add]
    rfl
  rw [StopsAt, before, entry]
  refine and_congr_right fun _ => ⟨?_, ?_⟩
  · rintro ⟨l, d, d', hl, ok, error⟩
    exact ⟨_, d, d', by rw [hl]; rfl, ok, error⟩
  · rintro ⟨_, d, d', hx, ok, error⟩
    obtain ⟨l, hl, rfl⟩ := Option.map_eq_some_iff.1 hx
    exact ⟨l, d, d', hl, ok, error⟩

theorem stopsAt_head_iff {e : Rejection} : rule.StopsAt mode delta next e .head ↔
    rule.headRejection = some e ∨ rule.headRejection = none ∧ ∃ d d',
      ((rule.marked delta).forM fun e => Compile.literal rule mode e.2 e.1) { next } = .ok () d ∧
      Compile.head rule d = .error e d' := by
  rw [StopsAt, ← forM_marked]

/-- Compilation ends as the clause does. -/
theorem compile_error_iff {e : Rejection} : (∃ n, rule.compile mode delta next = .error e n) ↔
    ∃ d, Compile.clause rule mode delta { next } = .error e d := by
  rw [compile]
  cases Compile.clause rule mode delta { next } with
  | ok c d => constructor <;> rintro ⟨_, ⟨⟩⟩
  | error e' d =>
    constructor
    · rintro ⟨_, ⟨⟩⟩
      exact ⟨d, rfl⟩
    · rintro ⟨_, ⟨⟩⟩
      exact ⟨d.next, rfl⟩

/-- **Compilation stops where it is refused.** -/
theorem exists_stopsAt_iff {e : Rejection} : (∃ n, rule.compile mode delta next = .error e n) ↔
    ∃ site, rule.StopsAt mode delta next e site := by
  rw [compile_error_iff]
  cases derivable : rule.headRejection with
  | some e' =>
    rw [clause_eq, derivable]
    constructor
    · rintro ⟨_, ⟨⟩⟩
      exact ⟨.head, .inl derivable⟩
    · rintro ⟨site, stops⟩
      cases site with
      | head =>
        rcases stops with stops | ⟨stops, _⟩ <;> cases derivable.symm.trans stops
        exact ⟨_, rfl⟩
      | literal i => cases derivable.symm.trans stops.1
  | none =>
    simp only [clause_error_iff derivable, Outcome.forM_error_iff]
    constructor
    · rintro ⟨d, ⟨i, x, d₁, hx, ok, error⟩ | ⟨d₁, ok, error⟩⟩
      · exact ⟨.literal i, stopsAt_literal_iff.2 ⟨derivable, x, d₁, d, hx, ok, error⟩⟩
      · exact ⟨.head, stopsAt_head_iff.2 (.inr ⟨derivable, d₁, d, ok, error⟩)⟩
    · rintro ⟨site, stops⟩
      cases site with
      | head =>
        rcases stopsAt_head_iff.1 stops with stops | ⟨_, d₁, d, ok, error⟩
        · cases derivable.symm.trans stops
        · exact ⟨d, .inr ⟨d₁, ok, error⟩⟩
      | literal i =>
        obtain ⟨_, x, d₁, d, hx, ok, error⟩ := stopsAt_literal_iff.1 stops
        exact ⟨d, .inl ⟨i, x, d₁, hx, ok, error⟩⟩

section

variable (below : ∀ v ∈ rule.occurrences, v.number < next)
include below

/-- After the body compilation is ready to read the head. -/
theorem ready_head {d : Draft}
    (ok : ((rule.marked delta).forM fun e => Compile.literal rule mode e.2 e.1) { next } = .ok () d) :
    d.Ready (Compile.Single rule) next (rule.body.flatMap Literal.occurrences)
      rule.head.occurrences := by
  have sound := Compile.literals_sound (ready_marked below) ok
  rw [flatMap_marked] at sound
  exact (ready_start below).right sound

/-- **What stops compilation is the first thing wrong with the rule.** -/
theorem refusal_of_stopsAt {e : Rejection} {site : Site}
    (stops : rule.StopsAt mode delta next e site) : rule.refusal = some (site, e.cause) := by
  cases site with
  | head =>
    rw [refusal]
    rcases stopsAt_head_iff.1 stops with derivable | ⟨derivable, d, d', ok, error⟩
    · rw [derivable]
    · have body := Compile.refusal_of_literals (i := 0) (ready_marked below) ok
      have head := Compile.causeOf_head (ready_head below ok)
      rw [map_fst_marked] at body
      rw [error] at head
      rw [derivable, body]
      dsimp only
      split at head
      · cases head
      · next unbound =>
        rw [if_neg unbound, Option.some.inj head]
        rfl
  | literal i =>
    obtain ⟨derivable, x, d, d', hx, ok, error⟩ := stopsAt_literal_iff.1 stops
    have body := Compile.refusal_of_literal_error (i := 0) (ready_marked below) hx ok error
    rw [map_fst_marked, Nat.zero_add] at body
    rw [refusal, derivable, body]
    rfl

/-- **A rule that compiles has nothing wrong with it.** -/
theorem refusal_of_compile {c : Clause} {next' : Nat}
    (ok : rule.compile mode delta next = .ok c next') : rule.refusal = none := by
  obtain ⟨d, ok⟩ := clause_of_compile ok
  rw [clause_eq] at ok
  rw [refusal]
  cases derivable : rule.headRejection with
  | some e =>
    rw [derivable] at ok
    cases ok
  | none =>
    rw [derivable] at ok
    obtain ⟨⟨⟩, d₁, body, ok⟩ := Outcome.bind_ok_iff.1 ok
    obtain ⟨h, d₂, head, _⟩ := Outcome.bind_ok_iff.1 ok
    have literals := Compile.refusal_of_literals (i := 0) (ready_marked below) body
    have bound := Compile.causeOf_head (ready_head below body)
    rw [map_fst_marked] at literals
    rw [head] at bound
    rw [literals]
    dsimp only
    split at bound
    · next all => rw [if_pos all]; rfl
    · cases bound

/-- **A rule compiles exactly if nothing is wrong with it**, in either mode, for any marked atom
and whatever has been numbered. -/
theorem compile_iff :
    (∃ c n, rule.compile mode delta next = .ok c n) ↔ rule.refusal = none := by
  constructor
  · rintro ⟨c, n, ok⟩
    exact refusal_of_compile below ok
  · intro fine
    cases h : rule.compile mode delta next with
    | ok c n => exact ⟨c, n, rfl⟩
    | error e n =>
      obtain ⟨site, stops⟩ := exists_stopsAt_iff.1 ⟨n, h⟩
      rw [refusal_of_stopsAt below stops] at fine
      cases fine

/-- A rule that is refused stops at one place. -/
theorem exists_stopsAt_only {e : Rejection} {n : Nat}
    (refused : rule.compile mode delta next = .error e n) : ∃ site,
      rule.refusal = some (site, e.cause) ∧ ∀ s, rule.StopsAt mode delta next e s ↔ s = site := by
  obtain ⟨site, stops⟩ := exists_stopsAt_iff.1 ⟨n, refused⟩
  have first := refusal_of_stopsAt below stops
  refine ⟨site, first, fun s => ⟨fun h => ?_, fun h => h ▸ stops⟩⟩
  exact (Prod.mk.inj (Option.some.inj ((refusal_of_stopsAt below h).symm.trans first))).1

end

/-- **Both ways to unify accept the same rules**, and refuse the others for the same cause at the
same place. -/
theorem modes_agree {next' : Nat} (below : ∀ v ∈ rule.occurrences, v.number < next)
    (below' : ∀ v ∈ rule.occurrences, v.number < next') :
    ((∃ c n, rule.compile .inline delta next = .ok c n) ↔
      ∃ c n, rule.compile .assign delta next' = .ok c n) ∧
    ∀ e n e' n', rule.compile .inline delta next = .error e n →
      rule.compile .assign delta next' = .error e' n' → e.cause = e'.cause ∧
      ∃ site, ∀ s, (rule.StopsAt .inline delta next e s ↔ s = site) ∧
        (rule.StopsAt .assign delta next' e' s ↔ s = site) := by
  refine ⟨(compile_iff below).trans (compile_iff below').symm, fun e n e' n' h h' => ?_⟩
  obtain ⟨site, first, stops⟩ := exists_stopsAt_only below h
  obtain ⟨site', first', stops'⟩ := exists_stopsAt_only below' h'
  obtain ⟨rfl, cause⟩ := Prod.mk.inj (Option.some.inj (first.symm.trans first'))
  exact ⟨cause, site, fun s => ⟨stops s, stops' s⟩⟩

end Rule

namespace Clash

/-- `q(x) :- p(x), y = n(x), y = n(z), s(z, w) = t(w, z).`, where `y` stands for a constructor if it
is inlined. -/
def rule : Rule :=
  let x : Term := .var ⟨"x", 0⟩
  let y : Term := .var ⟨"y", 0⟩
  let z : Term := .var ⟨"z", 0⟩
  let w : Term := .var ⟨"w", 0⟩
  { head := { relation := ⟨"q", 1, .bottomUp⟩, args := [x] }
    body := [
      .atom { relation := ⟨"p", 1, .extensional⟩, args := [x] },
      .unify y (.ctor "n" [x]) false,
      .unify y (.ctor "n" [z]) false,
      .unify (.ctor "s" [z, w]) (.ctor "t" [w, z]) false] }

/-- The constructors of the last equation clash, at either counter and in either mode. -/
theorem modes_alike : ∃ e n e' n', rule.compile .inline none 1 = .error e n ∧
    rule.compile .assign none 7 = .error e' n' ∧ e.cause = .unsatisfiable ∧
    e'.cause = .unsatisfiable ∧ rule.StopsAt .inline none 1 e (.literal 3) ∧
    rule.StopsAt .assign none 7 e' (.literal 3) := by
  obtain ⟨e, n, e', n', h, h', cause⟩ : ∃ e n e' n', rule.compile .inline none 1 = .error e n ∧
      rule.compile .assign none 7 = .error e' n' ∧ e.cause = .unsatisfiable :=
    ⟨_, _, _, _, rfl, rfl, rfl⟩
  have below : ∀ v ∈ rule.occurrences, v.number < 1 := by decide
  obtain ⟨same, site, stops⟩ := (Rule.modes_agree below (by decide)).2 e n e' n' h h'
  have first : rule.refusal = some (.literal 3, .unsatisfiable) := by decide
  have site_eq : site = .literal 3 := (Prod.mk.inj (Option.some.inj
    ((Rule.refusal_of_stopsAt below ((stops site).1.2 rfl)).symm.trans first))).1
  exact ⟨e, n, e', n', h, h', cause, same.symm.trans cause, (stops _).1.2 site_eq.symm,
    (stops _).2.2 site_eq.symm⟩

end Clash

end Datalog
