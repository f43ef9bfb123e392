import Datalog.Clause.Compile
import Datalog.Proofs.Flow

/-!
# Proofs/Compile/Draft — what a draft knows

A draft **knows** a variable once a step binds it or a term stands for it.  `Draft.Sound` is the
invariant of compilation: the steps so far are in order, what is inlined is bound, and the variables
**seen** in the literals so far are known, but for the singletons that goals ignore.  An ignored
variable counts as bound, although no step binds it; this does no harm because it is never seen
again (`Once`).
-/

namespace Datalog

/-! ## Invented variables -/

/-- The `count` variables invented from `n` on. -/
def Var.freshes (n : Nat) : (count : Nat) → List Var
  | 0 => []
  | count + 1 => .fresh n :: freshes (n + 1) count

namespace Var

@[simp] theorem length_freshes (n count : Nat) : (freshes n count).length = count := by
  induction count generalizing n with
  | zero => rfl
  | succ count ih => rw [freshes, List.length_cons, ih]

theorem number_of_mem_freshes {v : Var} {n count : Nat} (h : v ∈ freshes n count) :
    n ≤ v.number ∧ v.number < n + count := by
  induction count generalizing n with
  | zero => cases h
  | succ count ih =>
    rcases List.mem_cons.1 h with rfl | h
    · exact ⟨Nat.le_refl n, by simp [fresh]⟩
    · have := ih h
      omega

theorem nodup_freshes (n count : Nat) : (freshes n count).Nodup := by
  induction count generalizing n with
  | zero => exact List.nodup_nil
  | succ count ih =>
    refine List.nodup_cons.2 ⟨fun h => ?_, ih (n + 1)⟩
    have hn : n + 1 ≤ n := (number_of_mem_freshes h).1
    omega

end Var

/-! ## Variables that occur once -/

/-- **The single variables occur at most once** in the list. -/
def Once (single : Var → Prop) (vs : List Var) : Prop := ∀ v, single v → vs.count v ≤ 1

namespace Once

variable {single : Var → Prop} {vs ws : List Var}

theorem of_count_le (h : Once single ws) (hc : ∀ v, vs.count v ≤ ws.count v) : Once single vs :=
  fun v hv => Nat.le_trans (hc v) (h v hv)

theorem not_single (h : Once single (vs ++ ws)) {v : Var} (hv : v ∈ vs) (hw : v ∈ ws) :
    ¬single v := by
  intro hs
  have := h v hs
  have := List.count_pos_iff.2 hv
  have := List.count_pos_iff.2 hw
  rw [List.count_append] at *
  omega

end Once

namespace Draft

/-! ## Knowledge -/

/-- The variables that the steps bind. -/
def written (d : Draft) : List Var := Step.written d.steps

/-- **A step binds the variable, or a term stands for it.** -/
def Knows (d : Draft) (v : Var) : Prop := v ∈ d.written ∨ ∃ t, d.inlined.get? v = some t

/-- The values of variables, read through what is inlined. -/
def env (d : Draft) (fns : Functions) (b : Bindings) : Env := .through d.inlined fns b.get?

/-- **The invariant of compilation.**  `seen` lists the variables of the literals so far, and `old`
is above the numbers of all written variables. -/
structure Sound (single : Var → Prop) (old : Nat) (seen : List Var) (d : Draft) : Prop where
  inOrder : Step.InOrder [] d.steps
  written_bound : d.written ⊆ d.bound
  bound_cases : ∀ v ∈ d.bound, v ∈ d.written ∨ v ∈ seen ∧ single v
  seen_cases : ∀ v ∈ seen, d.Knows v ∨ single v
  inlined_seen : ∀ v t, d.inlined.get? v = some t → v ∈ seen
  inlined_unbound : ∀ v t, d.inlined.get? v = some t → v ∉ d.bound
  inlined_written : ∀ v t, d.inlined.get? v = some t → t.occurrences ⊆ d.written
  written_cases : ∀ v ∈ d.written, v ∈ seen ∨ old ≤ v.number ∧ v.number < d.next
  seen_old : ∀ v ∈ seen, v.number < old
  old_le : old ≤ d.next

variable {single : Var → Prop} {old : Nat} {seen seen' : List Var} {d d' : Draft}

namespace Sound

/-- Only the members of `seen` matter. -/
theorem congr (h : d.Sound single old seen) (hs : ∀ v, v ∈ seen ↔ v ∈ seen') :
    d.Sound single old seen' where
  inOrder := h.inOrder
  written_bound := h.written_bound
  bound_cases v hv := (h.bound_cases v hv).imp_right fun hv => ⟨(hs v).1 hv.1, hv.2⟩
  seen_cases v hv := h.seen_cases v ((hs v).2 hv)
  inlined_seen v t ht := (hs v).1 (h.inlined_seen v t ht)
  inlined_unbound := h.inlined_unbound
  inlined_written := h.inlined_written
  written_cases v hv := (h.written_cases v hv).imp_left (hs v).1
  seen_old v hv := h.seen_old v ((hs v).2 hv)
  old_le := h.old_le

/-- Numbering more variables does no harm. -/
theorem withNext (h : d.Sound single old seen) {n : Nat} (hn : d.next ≤ n) :
    ({ d with next := n } : Draft).Sound single old seen where
  inOrder := h.inOrder
  written_bound := h.written_bound
  bound_cases := h.bound_cases
  seen_cases := h.seen_cases
  inlined_seen := h.inlined_seen
  inlined_unbound := h.inlined_unbound
  inlined_written := h.inlined_written
  written_cases v hv := (h.written_cases v hv).imp_right fun hv => ⟨hv.1, Nat.lt_of_lt_of_le hv.2 hn⟩
  seen_old := h.seen_old
  old_le := Nat.le_trans h.old_le hn

theorem known_seen (h : d.Sound single old seen) {v : Var} (hv : d.Knows v) (ho : v.number < old) :
    v ∈ seen := by
  rcases hv with hv | ⟨t, ht⟩
  · exact (h.written_cases v hv).resolve_right fun hn => by omega
  · exact h.inlined_seen v t ht

/-- What is bound by a step is not inlined. -/
theorem inlined_of_written (h : d.Sound single old seen) {v : Var} (hv : v ∈ d.written) :
    d.inlined.get? v = none := by
  by_contra hn
  obtain ⟨t, ht⟩ := Option.ne_none_iff_exists'.1 hn
  exact h.inlined_unbound v t ht (h.written_bound hv)

/-! ## Terms that are still to be read -/

/-- The term's variables are known if they have been seen. -/
theorem knows_of_bound (h : d.Sound single old seen) {t : Term}
    (once : Once single (seen ++ t.occurrences)) (ht : t.isBoundBy seen = true) {v : Var}
    (hv : v ∈ t.occurrences) : d.Knows v := by
  have hs : v ∈ seen := by
    have := List.all_eq_true.1 ht v hv
    rwa [List.contains_iff_mem] at this
  exact (h.seen_cases v hs).resolve_right (once.not_single hs hv)

/-- **A bound term reads only what steps have bound.** -/
theorem occurrences_substitute (h : d.Sound single old seen) {t : Term}
    (known : ∀ v ∈ t.occurrences, d.Knows v) :
    (t.substitute d.inlined).occurrences ⊆ d.written := by
  intro w hw
  obtain ⟨v, hv, hw⟩ := Term.mem_occurrences_substitute.1 hw
  rcases known v hv with hk | ⟨s, hs⟩
  · rw [h.inlined_of_written hk] at hw
    obtain rfl := List.mem_singleton.1 hw
    exact hk
  · rw [hs] at hw
    exact h.inlined_written v s hs hw

/-- **The test for being bound asks whether all variables have been seen**, whatever is inlined and
whatever is ignored. -/
theorem isBound_iff (h : d.Sound single old seen) {t : Term}
    (once : Once single (seen ++ t.occurrences)) (hold : ∀ v ∈ t.occurrences, v.number < old) :
    (t.substitute d.inlined).isBoundBy d.bound = t.isBoundBy seen := by
  rw [Bool.eq_iff_iff]
  constructor
  · intro hb
    refine List.all_eq_true.2 fun v hv => List.contains_iff_mem.2 ?_
    cases hi : d.inlined.get? v with
    | some s => exact h.inlined_seen v s hi
    | none =>
      have hw : v ∈ (t.substitute d.inlined).occurrences :=
        Term.mem_occurrences_substitute.2 ⟨v, hv, by rw [hi]; exact List.mem_singleton.2 rfl⟩
      have hbound := List.contains_iff_mem.1 (List.all_eq_true.1 hb v hw)
      rcases h.bound_cases v hbound with hk | hk
      · exact h.known_seen (.inl hk) (hold v hv)
      · exact hk.1
  · intro hb
    refine List.all_eq_true.2 fun w hw => List.contains_iff_mem.2 ?_
    exact h.written_bound (h.occurrences_substitute (fun v hv => h.knows_of_bound once hb hv) hw)

end Sound

/-! ## Growth -/

/-- **What compilation adds**: steps at the end, variables inlined, numbers used. -/
structure Grows (d d' : Draft) (new : List Step) : Prop where
  steps : d'.steps = d.steps ++ new
  next : d.next ≤ d'.next
  inlined : ∀ v t, d.inlined.get? v = some t → d'.inlined.get? v = some t

namespace Grows

variable {new new' : List Step} {d'' : Draft}

theorem refl (d : Draft) : Grows d d [] :=
  ⟨(List.append_nil _).symm, Nat.le_refl _, fun _ _ h => h⟩

theorem trans (h : Grows d d' new) (h' : Grows d' d'' new') : Grows d d'' (new ++ new') :=
  ⟨by rw [h'.steps, h.steps, List.append_assoc], Nat.le_trans h.next h'.next,
    fun v t ht => h'.inlined v t (h.inlined v t ht)⟩

theorem written (h : Grows d d' new) : d'.written = d.written ++ Step.written new := by
  rw [Draft.written, Draft.written, h.steps, Step.written_append]

theorem knows (h : Grows d d' new) {v : Var} (hv : d.Knows v) : d'.Knows v := by
  rcases hv with hv | ⟨t, ht⟩
  · exact .inl (h.written ▸ List.mem_append_left _ hv)
  · exact .inr ⟨t, h.inlined v t ht⟩

/-- New steps leave what was bound before them alone. -/
theorem agree (h : Grows d d' new) (hd' : d'.Sound single old seen') {s : Scene} {b b' : Bindings}
    (path : Step.Path s new b b') : Bindings.Agree d.written b' b := by
  intro v hv
  refine path.get?_eq fun hn => ?_
  have order := hd'.inOrder
  rw [h.steps, Step.inOrder_append] at order
  exact order.2.disjoint hv hn

/-- **What is known keeps its value** while new steps run. -/
theorem env_eq (h : Grows d d' new) (hd : d.Sound single old seen)
    (hd' : d'.Sound single old seen') {s : Scene} {b b' : Bindings}
    (path : Step.Path s new b b') {v : Var} (hv : d.Knows v) :
    d'.env s.functions b' v = d.env s.functions b v := by
  have agree := h.agree hd' path
  rcases hv with hv | ⟨t, ht⟩
  · have hv' : v ∈ d'.written := h.written ▸ List.mem_append_left _ hv
    rw [env, env, Env.through, Env.through, hd.inlined_of_written hv, hd'.inlined_of_written hv']
    exact agree v hv
  · rw [env, env, Env.through, Env.through, ht, h.inlined v t ht]
    exact Term.value?_congr fun w hw => agree w (hd.inlined_written v t ht hw)

end Grows

/-- **An environment matches**: the written variables that are known have the values it gives. -/
def Matches (d : Draft) (fns : Functions) (old : Nat) (b : Bindings) (ρ : Env) : Prop :=
  ∀ v, v.number < old → d.Knows v → d.env fns b v = ρ v

theorem Matches.grow {new : List Step} {s : Scene} {b b' : Bindings} {ρ : Env}
    (h : d.Matches s.functions old b ρ) (hg : Grows d d' new) (hd : d.Sound single old seen)
    (hd' : d'.Sound single old seen') (path : Step.Path s new b b')
    (fresh : ∀ v, v.number < old → d'.Knows v → d.Knows v ∨ d'.env s.functions b' v = ρ v) :
    d'.Matches s.functions old b' ρ := by
  intro v ho hv
  rcases fresh v ho hv with hk | he
  · rw [hg.env_eq hd hd' path hk, h v ho hk]
  · exact he

/-- The value of a term as it reads in the draft. -/
theorem Matches.value?_eq {fns : Functions} {b : Bindings} {ρ : Env} {t : Term}
    (h : d.Matches fns old b ρ) (hold : ∀ v ∈ t.occurrences, v.number < old)
    (known : ∀ v ∈ t.occurrences, d.Knows v) :
    (t.substitute d.inlined).value? b.get? fns = t.value? ρ fns := by
  rw [Term.value?_substitute]
  exact Term.value?_congr fun v hv => h v (hold v hv) (known v hv)

end Draft

end Datalog
