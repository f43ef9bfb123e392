import Datalog.Proofs.Value

/-!
# Proofs/Substitution — terms put in place

Substituting looks at the variables of a term and at nothing else: what no variable of the term
notices makes no difference to the term.
-/

namespace Datalog

namespace Term

variable {σ σ' : Bindings}

theorem eq_var_of_asVar? {t : Term} {v : Var} (h : t.asVar? = some v) : t = .var v := by
  cases t with
  | var w => exact congrArg var (Option.some.inj h)
  | lit | ctor | call => cases h

/-- **A term with no bound variable** stays as it is. -/
theorem substitute_eq_self {t : Term} (h : ∀ v ∈ t.occurrences, σ.get? v = none) :
    t.substitute σ = t := by
  have all {args : List Term}
      (ih : ∀ a ∈ args, (∀ v ∈ a.occurrences, σ.get? v = none) → a.substitute σ = a)
      (h : ∀ v ∈ occurrencesOf args, σ.get? v = none) : substituteAll σ args = args := by
    rw [substituteAll_eq_map]
    refine (List.map_congr_left fun a ha => ih a ha fun v hv => h v ?_).trans (List.map_id' args)
    exact mem_occurrencesOf.2 ⟨a, ha, hv⟩
  induction t with
  | var v => rw [substitute, h v (List.mem_singleton.2 rfl), Option.getD_none]
  | lit => rfl
  | ctor f args ih => rw [substitute, all ih h]
  | call f args ih => rw [substitute, all ih h]

theorem substitute_of_isGround {t : Term} (h : t.isGround = true) : t.substitute σ = t :=
  substitute_eq_self fun v hv => by rw [List.isEmpty_iff.1 h] at hv; cases hv

/-- **A substitution that undoes another one's variables** comes to the same after it. -/
theorem substitute_substitute {t : Term}
    (h : ∀ v ∈ t.occurrences, ((var v).substitute σ).substitute σ' = (var v).substitute σ') :
    (t.substitute σ).substitute σ' = t.substitute σ' := by
  have all {args : List Term} (ih : ∀ a ∈ args,
      (∀ v ∈ a.occurrences, ((var v).substitute σ).substitute σ' = (var v).substitute σ') →
      (a.substitute σ).substitute σ' = a.substitute σ')
      (h : ∀ v ∈ occurrencesOf args,
        ((var v).substitute σ).substitute σ' = (var v).substitute σ') :
      substituteAll σ' (substituteAll σ args) = substituteAll σ' args := by
    rw [substituteAll_eq_map, substituteAll_eq_map, substituteAll_eq_map, List.map_map]
    exact List.map_congr_left fun a ha => ih a ha fun v hv =>
      h v (mem_occurrencesOf.2 ⟨a, ha, hv⟩)
  induction t with
  | var v => exact h v (List.mem_singleton.2 rfl)
  | lit => rfl
  | ctor f args ih => rw [substitute, substitute, substitute, all ih h]
  | call f args ih => rw [substitute, substitute, substitute, all ih h]

end Term

end Datalog
