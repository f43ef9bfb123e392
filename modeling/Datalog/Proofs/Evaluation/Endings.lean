import Datalog.Proofs.Evaluation.Conclude

/-!
# Proofs/Evaluation/Endings — what a task keeps, however it ends

An invariant that survives faults and crashes is a matter of the single stretches of work: if the
lookups, the other steps, the handing on and the conclusions of a clause keep it (`Work.Steady`), a
whole task does (`Work.Steady.work`).  What may have stopped the work is part of the bargain.
-/

namespace Datalog

/-- What a task has still to do of its clause's body. -/
def Task.remaining (task : Task) : List Slot :=
  (task.resumption.map (·.rest)).getD task.clause.body

namespace Work

variable {α β : Type} {I : Worker → Prop} {A : Abort → Prop} {P : α → Prop} {Q : β → Prop}

/-- **Work that keeps an invariant however it ends.**  If it ends well its result has the property
`Q`, and if it stops early what has stopped it has the property `A`. -/
def Maintains (I : Worker → Prop) (A : Abort → Prop) (Q : α → Prop) (work : Work α) : Prop :=
  ∀ w, I w → (∀ a w', work w = .ok a w' → I w' ∧ Q a) ∧ ∀ e w', work w = .error e w' → I w' ∧ A e

namespace Maintains

theorem pure {a : α} (ha : P a) : Maintains I A P (Pure.pure a) := by
  refine fun w hw => ⟨fun b w' ok => ?_, fun e w' h => (Outcome.pure_error_iff.1 h).elim⟩
  obtain ⟨rfl, rfl⟩ := Outcome.pure_ok_iff.1 ok
  exact ⟨hw, ha⟩

theorem bind {x : Work α} {f : α → Work β} (hx : Maintains I A P x)
    (hf : ∀ a, P a → Maintains I A Q (f a)) : Maintains I A Q (x >>= f) := by
  refine fun w hw => ⟨fun b w' ok => ?_, fun e w' h => ?_⟩
  · obtain ⟨a, w₁, ok₁, ok⟩ := Outcome.bind_ok_iff.1 ok
    obtain ⟨hw₁, ha⟩ := (hx w hw).1 a w₁ ok₁
    exact (hf a ha w₁ hw₁).1 b w' ok
  · rcases Outcome.bind_error_iff.1 h with h | ⟨a, w₁, ok₁, h⟩
    · exact (hx w hw).2 e w' h
    · obtain ⟨hw₁, ha⟩ := (hx w hw).1 a w₁ ok₁
      exact (hf a ha w₁ hw₁).2 e w' h

theorem forM {x : α → Work Unit} : ∀ {as : List α},
    (∀ a ∈ as, Maintains I A (fun _ => True) (x a)) → Maintains I A (fun _ => True) (as.forM x)
  | [], _ => pure trivial
  | a :: _, h =>
    bind (h a (List.mem_cons_self ..)) fun _ _ => forM fun b hb => h b (List.mem_cons_of_mem _ hb)

theorem within {context : Fault → Fault} {x : Work α} (hA : ∀ e, A e → A (e.within context))
    (hx : Maintains I A P x) : Maintains I A P (within context x) := by
  refine fun w hw => ⟨fun a w' ok => (hx w hw).1 a w' (within_ok_iff.1 ok), fun e w' h => ?_⟩
  rw [Work.within] at h
  cases hwork : x w with
  | ok a v =>
    rw [hwork] at h
    cases h
  | error e' v =>
    rw [hwork] at h
    cases h
    exact ((hx w hw).2 e' w' hwork).imp_right (hA e')

/-- Work that always ends well. -/
theorem of_sure {x : Work α} (sure : Sure x) (h : ∀ w a w', I w → x w = .ok a w' → I w' ∧ P a) :
    Maintains I A P x :=
  fun w hw => ⟨fun a w' ok => h w a w' hw ok, fun e w' error => (sure w e w' error).elim⟩

end Maintains

/-- **The stretches of a task keep the invariant**, steps together with the literal that their faults
are blamed on; `F` is what is known of the tuples that a goal finds. -/
structure Steady (cx : Context) (task : Task) (failed : Bool) (I : Worker → Prop) (A : Abort → Prop)
    (F : Goal → Tuple → Prop) : Prop where
  finds : ∀ {slot goal rest}, slot :: rest <:+ task.remaining →
    slot.step.positiveGoal? = some goal → Maintains I A (fun tuples => ∀ t ∈ tuples, F goal t)
      (within slot.step.blame (matching cx task slot goal))
  shares : ∀ {slot goal rest tuples}, slot :: rest <:+ task.remaining →
    slot.step.positiveGoal? = some goal → (∀ t ∈ tuples, F goal t) →
    Maintains I A (fun first => ∀ t ∈ first, F goal t) (shareOut cx task slot goal rest tuples)
  takes : ∀ {goal tuple}, F goal tuple → Maintains I A (fun _ => True) (take cx goal tuple)
  performs : ∀ {slot rest}, slot :: rest <:+ task.remaining → slot.step.positiveGoal? = none →
    Maintains I A (fun _ => True) (within slot.step.blame (perform cx slot))
  concludes : Maintains I A (fun _ => True) (conclude cx task failed)
  setsOff : Maintains I A (fun _ => True) (setOff cx task failed)
  records : Maintains I A (fun _ => True) (record cx task.clause)

namespace Steady

variable {cx : Context} {task : Task} {failed : Bool} {F : Goal → Tuple → Prop}
  (steady : Steady cx task failed I A F) {rest slots : List Slot} {goal : Goal}
  {tuples : List Tuple}
include steady

theorem search (left : slots <:+ task.remaining) :
    Maintains I A (fun _ => True) (search cx task (conclude cx task failed) slots) := by
  induction slots with
  | nil => exact steady.concludes
  | cons slot rest ih =>
    have next := ih ((List.suffix_cons slot rest).trans left)
    rw [Work.search]
    split
    · next goal positive =>
      refine .bind (steady.finds left positive) fun _ found => ?_
      refine .bind (steady.shares left positive found) fun first found => ?_
      exact .forM fun t ht => .bind (steady.takes (found t ht)) fun _ _ => next
    · next positive =>
      refine .bind (steady.performs left positive) fun go _ => ?_
      split
      · exact next
      · exact .pure trivial

/-- **The end of a task** comes after a fault too, but not after a crash. -/
theorem settle {work : Work Unit} (hwork : Maintains I A (fun _ => True) work) :
    Maintains I A (fun _ => True) (settle cx task failed work) := by
  intro w hw
  have finish : Maintains I A (fun _ => True) (do
      setOff cx task failed
      record cx task.clause) := .bind steady.setsOff fun _ _ => steady.records
  rw [Work.settle]
  cases h : work w with
  | ok u w₁ => exact finish w₁ ((hwork w hw).1 u w₁ h).1
  | error e w₁ =>
    obtain ⟨hw₁, he⟩ := (hwork w hw).2 e w₁ h
    cases e with
    | fault fault =>
      refine (finish.bind (Q := fun _ => True) fun _ _ v hv => ⟨?_, ?_⟩) w₁ hw₁
      · exact fun _ _ ok => (Outcome.throw_ok_iff.1 ok).elim
      · intro e w' h
        obtain ⟨rfl, rfl⟩ := Outcome.throw_error_iff.1 h
        exact ⟨hv, he⟩
    | crash message =>
      constructor
      · rintro _ _ ⟨⟩
      · rintro _ _ ⟨⟩
        exact ⟨hw₁, he⟩

theorem resume (left : rest <:+ task.remaining) (found : ∀ t ∈ tuples, F goal t) :
    Maintains I A (fun _ => True) (resume cx task failed goal rest tuples) :=
  steady.settle (.forM fun t ht => .bind (steady.takes (found t ht)) fun _ _ => steady.search left)

theorem approach (left : slots <:+ task.remaining) :
    Maintains I A (fun _ => True) (approach cx task failed slots) := by
  induction slots with
  | nil => exact steady.settle steady.concludes
  | cons slot rest ih =>
    have next := (List.suffix_cons slot rest).trans left
    rw [Work.approach]
    split
    · next goal positive =>
      refine .bind (steady.finds left positive) fun _ found => ?_
      refine .bind steady.records fun _ _ => ?_
      exact .bind (steady.shares left positive found) fun first found => steady.resume next found
    · next positive =>
      refine .bind (steady.performs left positive) fun go _ => ?_
      split
      · exact ih next
      · exact steady.records

omit steady

/-- **An invariant that looks neither at the bindings nor at the bookkeeping** is a matter of
handing on, of concluding and of setting off. -/
theorem of_blind (blind : Blind I)
    (suffixes : ∀ (w : Worker) (slot : Slot) (goal : Goal) (rest : List Slot) (bindings : Bindings)
      (others : List (List Tuple)), slot :: rest <:+ task.remaining →
      slot.step.positiveGoal? = some goal → I w →
      I { w with spawned := (others.map (suffix task goal rest bindings)).reverse ++ w.spawned })
    (concludes : Maintains I (fun _ => True) (fun _ => True) (conclude cx task failed))
    (setsOff : Keeps I (setOff cx task failed)) :
    Steady cx task failed I (fun _ => True) fun _ _ => True where
  finds := by
    refine fun {slot goal rest} _ _ => .within (fun _ _ => trivial) fun w hw =>
      ⟨fun tuples w' ok => ?_, fun e w' h => ?_⟩
    · obtain ⟨rfl, _⟩ := matching_ok ok
      exact ⟨hw, fun _ _ => trivial⟩
    · obtain ⟨rfl, _⟩ := matching_error h
      exact ⟨hw, trivial⟩
  shares := by
    refine fun {slot goal rest tuples} left positive _ =>
      .of_sure .shareOut fun w first w' hw ok => ?_
    obtain ⟨others, _, idles⟩ := shareOut_ok ok
    have shared := suffixes w slot goal rest w.bindings others left positive hw
    exact ⟨blind.idles idles shared, fun _ _ => trivial⟩
  takes := fun _ => .of_sure .take fun _ _ _ hw ok =>
    ⟨blind.idles (take_ok ok) (blind.bindings _ hw), trivial⟩
  performs := by
    refine fun {slot _} _ _ => .within (fun _ _ => trivial) fun w hw =>
      ⟨fun go w' ok => ⟨?_, trivial⟩, fun e w' h => ?_⟩
    · exact Keeps.perform blind w go w' hw ok
    · obtain ⟨rfl, _⟩ := perform_error h
      exact ⟨hw, trivial⟩
  concludes := concludes
  setsOff := .of_sure .setOff fun w u w' hw ok => ⟨setsOff w u w' hw ok, trivial⟩
  records := .of_sure .record fun _ _ _ hw ok => ⟨blind.idles (record_ok ok) hw, trivial⟩

include steady

/-- **A task keeps what its stretches keep**, however it ends. -/
theorem work (found : ∀ r, task.resumption = some r → ∀ t ∈ r.tuples, F r.goal t) :
    Maintains I A (fun _ => True) (task.work cx failed) := by
  rw [Task.work]
  split
  · next hr =>
    refine steady.approach ?_
    rw [Task.remaining, hr]
    exact List.suffix_rfl
  · next r hr =>
    refine steady.resume ?_ (found r hr)
    rw [Task.remaining, hr]
    exact List.suffix_rfl

end Steady

end Work

/-- **What work keeps, a run keeps**; the abort of a run is that of its work, inside the rule. -/
theorem Task.run_maintains {cx : Context} {task : Task} {failed : Bool} {world : World}
    {I : Worker → Prop} {A : Abort → Prop}
    (h : Work.Maintains I A (fun _ => True) (task.work cx failed)) (start : I (task.worker world)) :
    ∃ w, I w ∧ (task.run cx failed world).world = w.world ∧
      (task.run cx failed world).spawned = w.spawned ∧
      ∀ e, (task.run cx failed world).result = .error e →
        ∃ e', A e' ∧ e = e'.within (.inRule task.clause.text) := by
  obtain ⟨ok, error⟩ := h _ start
  rw [run_eq]
  cases hwork : task.work cx failed (task.worker world) with
  | ok u w => exact ⟨w, (ok u w hwork).1, rfl, rfl, nofun⟩
  | error e w =>
    obtain ⟨hw, he⟩ := error e w hwork
    exact ⟨w, hw, rfl, rfl, fun _ h => ⟨e, he, (Except.error.inj h).symm⟩⟩

end Datalog
