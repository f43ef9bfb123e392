import Datalog.Proofs.Compile.Draft

/-!
# Proofs/Compile/Action — what each action does to a draft

An action of compilation adds steps to the draft, and what they come to is a relation between
bindings and environments (`Draft.Adds`).  It is read in both directions: every path through the
new steps ends in bindings that satisfy it, and for every environment that satisfies it there is a
path.  In the second direction a step may break instead, if a term without a value has been passed
over so far; the relation comes in a **strict** form that rules this out.
-/

namespace Datalog

namespace Draft

variable {single : Var → Prop} {old : Nat} {seen seen' : List Var} {s : Scene} {d d' d'' : Draft}

/-! ## Actions as functions -/

/-- The draft with one more step. -/
def emitted (d : Draft) (step : Step) : Draft :=
  { d with
    steps := d.steps ++ [step]
    bound := if step.binds then d.bound ++ step.vars else d.bound }

/-- The draft in which the variable stands for the term. -/
def inlining (d : Draft) (v : Var) (t : Term) : Draft := { d with inlined := d.inlined.put v t }

end Draft

namespace Compile

variable {d d' : Draft}

theorem current_eq (t : Term) : current t d = .ok (t.substitute d.inlined) d := rfl

theorem current_ok_iff {t t' : Term} :
    current t d = .ok t' d' ↔ t' = t.substitute d.inlined ∧ d = d' := by
  simp [current_eq, eq_comm]

/-- Several terms as they read now. -/
theorem mapM_current_ok_iff {ts us : List Term} : ts.mapM current d = .ok us d' ↔
    us = ts.map (·.substitute d.inlined) ∧ d = d' := by
  induction ts generalizing us d' with
  | nil =>
    rw [List.mapM_nil, Outcome.pure_ok_iff, List.map_nil, eq_comm (a := us)]
  | cons t ts ih =>
    rw [List.mapM_cons, Outcome.bind_ok_iff]
    constructor
    · rintro ⟨_, _, ht, h⟩
      obtain ⟨rfl, rfl⟩ := current_ok_iff.1 ht
      obtain ⟨_, _, hts, h⟩ := Outcome.bind_ok_iff.1 h
      obtain ⟨rfl, rfl⟩ := ih.1 hts
      obtain ⟨rfl, rfl⟩ := Outcome.pure_ok_iff.1 h
      exact ⟨rfl, rfl⟩
    · rintro ⟨rfl, rfl⟩
      refine ⟨_, _, current_eq _, Outcome.bind_ok_iff.2 ⟨_, _, ih.2 ⟨rfl, rfl⟩, ?_⟩⟩
      exact Outcome.pure_ok_iff.2 ⟨rfl, rfl⟩

theorem mapM_current_eq (ts : List Term) :
    ts.mapM current d = .ok (ts.map (·.substitute d.inlined)) d :=
  mapM_current_ok_iff.2 ⟨rfl, rfl⟩

theorem isBound_eq (t : Term) : isBound t d = .ok (t.isBoundBy d.bound) d := rfl

theorem isBound_ok_iff {t : Term} {bound : Bool} :
    isBound t d = .ok bound d' ↔ bound = t.isBoundBy d.bound ∧ d = d' := by
  simp [isBound_eq, eq_comm]

theorem emit_ok_iff {step : Step} {u : Unit} :
    emit step d = .ok u d' ↔ d' = d.emitted step :=
  Outcome.modify_ok_iff

theorem inline_ok_iff {v : Var} {t : Term} {u : Unit} :
    inline v t d = .ok u d' ↔ d' = d.inlining v t :=
  Outcome.modify_ok_iff

theorem invent_ok_iff {v : Var} :
    invent d = .ok v d' ↔ v = .fresh d.next ∧ d' = { d with next := d.next + 1 } := by
  change EStateM.Result.ok (Var.fresh d.next) { d with next := d.next + 1 } = _ ↔ _
  simp [eq_comm]

/-- **As many invented variables as entries**, numbered in a row. -/
theorem inventAll_ok_iff {ts : List α} {vs : List Var} : inventAll ts d = .ok vs d' ↔
    vs = Var.freshes d.next ts.length ∧ d' = { d with next := d.next + ts.length } := by
  induction ts generalizing d d' vs with
  | nil =>
    rw [inventAll, List.mapM_nil, Outcome.pure_ok_iff]
    exact ⟨fun h => ⟨h.1.symm, h.2.symm⟩, fun h => ⟨h.1.symm, h.2.symm⟩⟩
  | cons t ts ih =>
    have number : d.next + (t :: ts).length = d.next + 1 + ts.length := by
      rw [List.length_cons, Nat.add_assoc, Nat.add_comm 1]
    rw [inventAll, List.mapM_cons, Outcome.bind_ok_iff, number]
    constructor
    · rintro ⟨v, e, hv, h⟩
      obtain ⟨rfl, rfl⟩ := invent_ok_iff.1 hv
      obtain ⟨ws, e', hws, h⟩ := Outcome.bind_ok_iff.1 h
      obtain ⟨rfl, rfl⟩ := ih.1 hws
      obtain ⟨rfl, rfl⟩ := Outcome.pure_ok_iff.1 h
      exact ⟨rfl, rfl⟩
    · rintro ⟨rfl, rfl⟩
      refine ⟨_, _, invent_ok_iff.2 ⟨rfl, rfl⟩, Outcome.bind_ok_iff.2 ⟨_, _, ih.2 ⟨rfl, rfl⟩, ?_⟩⟩
      exact Outcome.pure_ok_iff.2 ⟨rfl, rfl⟩

end Compile

/-- What a step writes is among the variables it binds. -/
theorem Step.mem_vars_of_mem_writes {step : Step} {v : Var} (h : v ∈ step.writes) :
    step.binds = true ∧ v ∈ step.vars := by
  cases step with
  | assign w t => exact ⟨rfl, List.mem_eraseDups.2 (List.mem_append_left _ h)⟩
  | check l r negated => cases h
  | destruct t f ys => exact ⟨rfl, List.mem_eraseDups.2 (List.mem_append_right _ h)⟩
  | lookup g =>
    rw [writes] at h
    cases hn : g.negated with
    | true => simp [hn] at h
    | false =>
      rw [hn, if_neg Bool.false_ne_true] at h
      obtain ⟨arg, harg, hv⟩ := List.mem_flatMap.1 h
      refine ⟨by simp [binds, hn], List.mem_eraseDups.2 ?_⟩
      refine List.mem_flatMap.2 ⟨_, List.mem_map_of_mem harg, ?_⟩
      cases arg with
      | free w => exact hv
      | bound | ignored => cases hv

namespace Draft

variable {single : Var → Prop} {old : Nat} {seen seen' : List Var} {s : Scene} {d d' d'' : Draft}

/-! ## The invariant -/

/-- **When a step may be added.** -/
structure Takes (single : Var → Prop) (old : Nat) (d : Draft) (step : Step) (seen' : List Var) :
    Prop where
  reads : step.reads ⊆ d.written
  unbound : ∀ v ∈ step.writes, v ∉ d.bound
  notInlined : ∀ v ∈ step.writes, d.inlined.get? v = none
  nodup : step.writes.Nodup
  vars : ∀ v ∈ step.vars, step.binds = true →
    v ∈ d.written ∨ v ∈ step.writes ∨ v ∈ seen' ∧ single v ∧ d.inlined.get? v = none
  seen_cases : ∀ v ∈ seen', v ∈ step.writes ∨ d.Knows v ∨ single v
  writes_cases : ∀ v ∈ step.writes, v ∈ seen' ∨ old ≤ v.number ∧ v.number < d.next
  seen_old : ∀ v ∈ seen', v.number < old

theorem written_emitted (d : Draft) (step : Step) :
    (d.emitted step).written = d.written ++ step.writes := by
  rw [written, emitted, Step.written_append, Step.written_cons, Step.written_nil, List.append_nil]
  rfl

theorem mem_bound_emitted {step : Step} {v : Var} :
    v ∈ (d.emitted step).bound ↔ v ∈ d.bound ∨ step.binds = true ∧ v ∈ step.vars := by
  rw [emitted]
  cases step.binds <;> simp

theorem Sound.emit (h : d.Sound single old seen) {step : Step} (hs : seen ⊆ seen')
    (ht : d.Takes single old step seen') : (d.emitted step).Sound single old seen' where
  inOrder := by
    refine Step.inOrder_append.2 ⟨h.inOrder, ?_⟩
    refine ⟨ht.reads, fun v hv hw => ht.unbound v hw (h.written_bound hv), ht.nodup, trivial⟩
  written_bound v hv := by
    rw [written_emitted, List.mem_append] at hv
    rw [mem_bound_emitted]
    exact hv.imp (fun hv => h.written_bound hv) Step.mem_vars_of_mem_writes
  bound_cases v hv := by
    rw [written_emitted, List.mem_append]
    rcases mem_bound_emitted.1 hv with hv | ⟨hb, hv⟩
    · rcases h.bound_cases v hv with hw | ⟨hv, hsv⟩
      · exact .inl (.inl hw)
      · exact .inr ⟨hs hv, hsv⟩
    · rcases ht.vars v hv hb with hw | hw | ⟨hv, hsv, _⟩
      · exact .inl (.inl hw)
      · exact .inl (.inr hw)
      · exact .inr ⟨hv, hsv⟩
  seen_cases v hv := by
    rw [Knows, written_emitted, List.mem_append]
    rcases ht.seen_cases v hv with hw | (hw | hi) | hsv
    · exact .inl (.inl (.inr hw))
    · exact .inl (.inl (.inl hw))
    · exact .inl (.inr hi)
    · exact .inr hsv
  inlined_seen v t hv := hs (h.inlined_seen v t hv)
  inlined_unbound v t hv hb := by
    rcases mem_bound_emitted.1 hb with hb | ⟨hb, hvs⟩
    · exact h.inlined_unbound v t hv hb
    · have none : d.inlined.get? v = none := by
        rcases ht.vars v hvs hb with hw | hw | ⟨_, _, hn⟩
        · exact h.inlined_of_written hw
        · exact ht.notInlined v hw
        · exact hn
      rw [emitted, none] at hv
      cases hv
  inlined_written v t hv w hw := by
    rw [written_emitted]
    exact List.mem_append_left _ (h.inlined_written v t hv hw)
  written_cases v hv := by
    rw [written_emitted, List.mem_append] at hv
    rcases hv with hv | hv
    · exact (h.written_cases v hv).imp_left (@hs v)
    · exact ht.writes_cases v hv
  seen_old := ht.seen_old
  old_le := h.old_le

theorem Sound.inline (h : d.Sound single old seen) {v : Var} {t : Term} (hv : v ∉ d.bound)
    (ht : t.occurrences ⊆ d.written) (ho : v.number < old) :
    (d.inlining v t).Sound single old (seen ++ [v]) where
  inOrder := h.inOrder
  written_bound := h.written_bound
  bound_cases w hw := (h.bound_cases w hw).imp_right fun hw => ⟨List.mem_append_left _ hw.1, hw.2⟩
  seen_cases w hw := by
    by_cases e : v = w
    · exact .inl (.inr ⟨t, by rw [inlining, Assoc.get?_put, if_pos e]⟩)
    · have hw : w ∈ seen :=
        (List.mem_append.1 hw).resolve_right fun hw => e (List.mem_singleton.1 hw).symm
      refine (h.seen_cases w hw).imp_left fun hk => hk.imp_right ?_
      rintro ⟨u, hu⟩
      exact ⟨u, by rwa [inlining, Assoc.get?_put, if_neg e]⟩
  inlined_seen w u hw := by
    rw [inlining, Assoc.get?_put] at hw
    split at hw
    · next e => exact List.mem_append_right _ (List.mem_singleton.2 e.symm)
    · exact List.mem_append_left _ (h.inlined_seen w u hw)
  inlined_unbound w u hw := by
    rw [inlining, Assoc.get?_put] at hw
    split at hw
    · next e => exact e ▸ hv
    · exact h.inlined_unbound w u hw
  inlined_written w u hw := by
    rw [inlining, Assoc.get?_put] at hw
    split at hw
    · exact Option.some.inj hw ▸ ht
    · exact h.inlined_written w u hw
  written_cases w hw := (h.written_cases w hw).imp_left fun hw => List.mem_append_left _ hw
  seen_old w hw := by
    rcases List.mem_append.1 hw with hw | hw
    · exact h.seen_old w hw
    · exact List.mem_singleton.1 hw ▸ ho
  old_le := h.old_le

/-! ## What the new steps say -/

theorem Grows.emitted (d : Draft) (step : Step) : Grows d (d.emitted step) [step] :=
  ⟨rfl, Nat.le_refl _, fun _ _ h => h⟩

theorem Grows.inlining {v : Var} {t : Term} (h : d.inlined.get? v = none) :
    Grows d (d.inlining v t) [] where
  steps := (List.append_nil _).symm
  next := Nat.le_refl _
  inlined w u hw := by
    rw [Draft.inlining, Assoc.get?_put, if_neg]
    · exact hw
    · rintro rfl
      rw [h] at hw
      cases hw

theorem Grows.withNext {n : Nat} (h : d.next ≤ n) : Grows d { d with next := n } [] :=
  ⟨(List.append_nil _).symm, h, fun _ _ h => h⟩

/-- The new steps are in order after what was bound before them. -/
theorem Grows.inOrder {new : List Step} (h : Grows d d' new) (hd' : d'.Sound single old seen') :
    Step.InOrder d.written new := by
  have order := hd'.inOrder
  rw [h.steps, Step.inOrder_append] at order
  exact order.2

/-- **What is known matches before** the new steps if it matches after them. -/
theorem Matches.of_grows {new : List Step} {b b' : Bindings} {ρ : Env}
    (h : d'.Matches s.functions old b' ρ) (hg : Grows d d' new) (hd : d.Sound single old seen)
    (hd' : d'.Sound single old seen') (path : Step.Path s new b b') :
    d.Matches s.functions old b ρ := by
  intro v ho hv
  rw [← hg.env_eq hd hd' path hv]
  exact h v ho (hg.knows hv)

/-- What a step has bound is read from the bindings. -/
theorem Sound.env_eq (h : d.Sound single old seen) {fns : Functions} {b : Bindings} {v : Var}
    (hv : v ∈ d.written) : d.env fns b v = b.get? v := by
  rw [env, Env.through, h.inlined_of_written hv]

theorem Matches.of_emitted {step : Step} {fns : Functions} {b : Bindings} {ρ : Env}
    (h : (d.emitted step).Matches fns old b ρ) (hd' : (d.emitted step).Sound single old seen') :
    ∀ v ∈ step.writes, v.number < old → b.get? v = ρ v := by
  intro v hv ho
  have hw : v ∈ (d.emitted step).written := by
    rw [written_emitted]
    exact List.mem_append_right _ hv
  exact (hd'.env_eq hw).symm.trans (h v ho (.inl hw))

/-- **A step that binds the values of the environment** goes on matching. -/
theorem Matches.emitted {step : Step} {b b' : Bindings} {ρ : Env}
    (h : d.Matches s.functions old b ρ) (hd : d.Sound single old seen)
    (hd' : (d.emitted step).Sound single old seen') (leads : step.Leads s b b')
    (hw : ∀ v ∈ step.writes, v.number < old → b'.get? v = ρ v) :
    (d.emitted step).Matches s.functions old b' ρ := by
  refine h.grow (Grows.emitted d step) hd hd' (Step.path_singleton_iff.2 leads) fun v ho hk => ?_
  rw [Knows, written_emitted, List.mem_append, or_assoc, or_left_comm] at hk
  rcases hk with hv | hk
  · refine .inr ((hd'.env_eq ?_).trans (hw v hv ho))
    rw [written_emitted]
    exact List.mem_append_right _ hv
  · exact .inl hk

/-- **What new steps come to.**  `M strict b ρ` says of an environment how it is related to the
bindings that the steps start from. -/
structure Adds (s : Scene) (old : Nat) (d d' : Draft) (new : List Step)
    (M : Bool → Bindings → Env → Prop) : Prop extends Grows d d' new where
  suited : Step.Suited s new
  /-- Whatever a path leads to satisfies the relation. -/
  sound : ∀ {b b' ρ}, b.Defined d.written → Step.Path s new b b' →
    d'.Matches s.functions old b' ρ → M true b ρ
  /-- Whatever satisfies the relation has a path. -/
  complete : ∀ {strict b ρ}, b.Defined d.written → d.Matches s.functions old b ρ → M strict b ρ →
    (∃ b', Step.Path s new b b' ∧ d'.Matches s.functions old b' ρ) ∨
      Step.Breaks s new b ∧ strict = false

namespace Adds

variable {new new' : List Step} {M M' M'' : Bool → Bindings → Env → Prop}

/-- Nothing was added, and nothing has to hold. -/
theorem refl (s : Scene) (old : Nat) (d : Draft) : Adds s old d d [] fun _ _ _ => True where
  toGrows := .refl d
  suited _ hg := nomatch hg
  sound _ _ _ := trivial
  complete _ hm _ := .inl ⟨_, .nil, hm⟩

/-- **One action after the other.** -/
theorem trans (h : Adds s old d d' new M) (h' : Adds s old d' d'' new' M')
    (hd' : d'.Sound single old seen') {seen'' : List Var} (hd'' : d''.Sound single old seen'')
    (sound : ∀ {b b' ρ}, Step.Path s new b b' → Bindings.Agree d.written b' b →
      M true b ρ → M' true b' ρ → M'' true b ρ)
    (complete : ∀ {strict b ρ}, M'' strict b ρ → M strict b ρ ∧
      ∀ b', Step.Path s new b b' → Bindings.Agree d.written b' b → M' strict b' ρ) :
    Adds s old d d'' (new ++ new') M'' := by
  have defined {b b' : Bindings} (hb : b.Defined d.written) (path : Step.Path s new b b') :
      b'.Defined d'.written := by
    rw [h.written]
    exact path.defined (h.inOrder hd') h.suited.long hb
  refine ⟨h.toGrows.trans h'.toGrows, ?_, ?_, ?_⟩
  · intro g hg
    rcases List.mem_append.1 hg with hg | hg
    · exact h.suited g hg
    · exact h'.suited g hg
  · intro b b'' ρ hb path hm
    obtain ⟨b', path, path'⟩ := Step.path_append_iff.1 path
    have hm' := hm.of_grows h'.toGrows hd' hd'' path'
    exact sound path (h.agree hd' path) (h.sound hb path hm') (h'.sound (defined hb path) path' hm)
  · intro strict b ρ hb hm hM
    obtain ⟨hM, hM'⟩ := complete hM
    rcases h.complete hb hm hM with ⟨b', path, hm'⟩ | ⟨breaks, hs⟩
    · rcases h'.complete (defined hb path) hm' (hM' b' path (h.agree hd' path)) with
        ⟨b'', path', hm''⟩ | ⟨breaks, hs⟩
      · exact .inl ⟨b'', Step.path_append_iff.2 ⟨b', path, path'⟩, hm''⟩
      · exact .inr ⟨path.breaks breaks, hs⟩
    · exact .inr ⟨breaks.append new', hs⟩

/-- **The same steps in other words**, for environments that match at the start. -/
theorem imp (h : Adds s old d d' new M) (hd : d.Sound single old seen)
    (hd' : d'.Sound single old seen')
    (sound : ∀ {b ρ}, b.Defined d.written → d.Matches s.functions old b ρ → M true b ρ → M' true b ρ)
    (complete : ∀ {strict b ρ}, b.Defined d.written → d.Matches s.functions old b ρ →
      M' strict b ρ → M strict b ρ) :
    Adds s old d d' new M' where
  toGrows := h.toGrows
  suited := h.suited
  sound hb path hm := sound hb (hm.of_grows h.toGrows hd hd' path) (h.sound hb path hm)
  complete hb hm hM := h.complete hb hm (complete hb hm hM)

/-- Numbers that are passed over make no difference. -/
theorem withNext {n : Nat} (hn : d.next ≤ n) (h : Adds s old { d with next := n } d' new M) :
    Adds s old d d' new M :=
  ⟨(Grows.withNext hn).trans h.toGrows, h.suited, h.sound, h.complete⟩

/-- **One step is added.** -/
theorem emit {step : Step} (hd : d.Sound single old seen)
    (hd' : (d.emitted step).Sound single old seen')
    (suits : ∀ g, step = .lookup g → s.Suits g)
    (sound : ∀ {b b' ρ}, b.Defined d.written → step.Leads s b b' →
      d.Matches s.functions old b ρ → (∀ v ∈ step.writes, v.number < old → b'.get? v = ρ v) →
      M true b ρ)
    (complete : ∀ {strict b ρ}, b.Defined d.written → d.Matches s.functions old b ρ →
      M strict b ρ → (∃ b', step.Leads s b b' ∧
        ∀ v ∈ step.writes, v.number < old → b'.get? v = ρ v) ∨
        step.Fails s.functions b ∧ strict = false) :
    Adds s old d (d.emitted step) [step] M := by
  have hg := Grows.emitted d step
  refine ⟨hg, ?_, ?_, ?_⟩
  · intro g hmem
    exact suits g (List.mem_singleton.1 hmem).symm
  · intro b b' ρ hb path hm
    exact sound hb (Step.path_singleton_iff.1 path) (hm.of_grows hg hd hd' path)
      (hm.of_emitted hd')
  · intro strict b ρ hb hm hM
    rcases complete hb hm hM with ⟨b', leads, hw⟩ | ⟨fails, hs⟩
    · exact .inl ⟨b', Step.path_singleton_iff.2 leads, hm.emitted hd hd' leads hw⟩
    · exact .inr ⟨.here fails, hs⟩

/-- **A variable is inlined.** -/
theorem inline {v : Var} {t : Term} (hd : d.Sound single old seen)
    (hd' : (d.inlining v t).Sound single old seen') (hv : d.inlined.get? v = none)
    (sound : ∀ {b ρ}, b.Defined d.written → t.value? b.get? s.functions = ρ v → M true b ρ)
    (complete : ∀ {strict b ρ}, M strict b ρ → t.value? b.get? s.functions = ρ v)
    (ho : v.number < old) : Adds s old d (d.inlining v t) [] M := by
  have env {b : Bindings} : (d.inlining v t).env s.functions b v = t.value? b.get? s.functions := by
    rw [Draft.env, Env.through, inlining, Assoc.get?_put, if_pos rfl]
  refine ⟨.inlining hv, (fun _ hg => absurd hg List.not_mem_nil), ?_, ?_⟩
  · intro b b' ρ hb path hm
    cases path
    refine sound hb (env.symm.trans (hm v ho (.inr ⟨t, ?_⟩)))
    rw [inlining, Assoc.get?_put, if_pos rfl]
  · intro strict b ρ hb hm hM
    refine .inl ⟨b, .nil, hm.grow (.inlining hv) hd hd' .nil fun w ho hk => ?_⟩
    by_cases e : v = w
    · subst e
      exact .inr (env.trans (complete hM))
    · refine .inl (hk.imp_right ?_)
      rintro ⟨u, hu⟩
      exact ⟨u, by rwa [inlining, Assoc.get?_put, if_neg e] at hu⟩

end Adds

/-- **A comparison is added.** -/
theorem Adds.check {l r : Term} {negated : Bool} (hd : d.Sound single old seen)
    (hd' : (d.emitted (.check l r negated)).Sound single old seen') :
    Adds s old d (d.emitted (.check l r negated)) [.check l r negated] fun strict b _ =>
      (∃ x y, l.value? b.get? s.functions = some x ∧ r.value? b.get? s.functions = some y ∧
        (x = y ↔ negated = false)) ∨
      Step.Fails s.functions b (.check l r negated) ∧ strict = false := by
  refine .emit hd hd' (fun _ h => nomatch h) ?_ ?_
  · intro b b' ρ _ leads _ _
    exact .inl (Step.leads_check_iff.1 leads).2
  · intro strict b ρ _ _ h
    refine h.imp_left fun values => ?_
    exact ⟨b, Step.leads_check_iff.2 ⟨rfl, values⟩, fun _ hv => absurd hv List.not_mem_nil⟩

/-! ## Reading terms -/

/-- **The draft is ready to read the variables**: single ones stand for the first time. -/
structure Ready (single : Var → Prop) (old : Nat) (seen vs : List Var) (d : Draft) : Prop where
  sound : d.Sound single old seen
  once : Once single (seen ++ vs)
  old : ∀ v ∈ vs, v.number < old

namespace Ready

variable {vs ws : List Var}

theorem left (h : d.Ready single old seen (vs ++ ws)) : d.Ready single old seen vs where
  sound := h.sound
  once := h.once.of_count_le fun v => by
    have split : (seen ++ (vs ++ ws)).count v = (seen ++ vs).count v + ws.count v := by
      rw [← List.append_assoc, List.count_append]
    rw [split]
    exact Nat.le_add_right ..
  old v hv := h.old v (List.mem_append_left _ hv)

theorem skip (h : d.Ready single old seen (vs ++ ws)) : d.Ready single old seen ws where
  sound := h.sound
  once := h.once.of_count_le fun v => by
    rw [List.count_append, List.count_append, List.count_append]
    omega
  old v hv := h.old v (List.mem_append_right _ hv)

theorem of_mem {ts : List Term} {t : Term} (h : d.Ready single old seen (Term.occurrencesOf ts))
    (ht : t ∈ ts) : d.Ready single old seen t.occurrences where
  sound := h.sound
  once := h.once.of_count_le fun v => by
    have sub := (List.singleton_sublist.2 ht).flatMap Term.occurrences
    rw [List.flatMap_singleton] at sub
    rw [Term.occurrencesOf_eq_flatMap, List.count_append, List.count_append]
    exact Nat.add_le_add_left (sub.count_le v) _
  old v hv := h.old v (Term.mem_occurrencesOf.2 ⟨t, ht, hv⟩)

theorem withNext (h : d.Ready single old seen vs) {n : Nat} (hn : d.next ≤ n) :
    ({ d with next := n } : Draft).Ready single old seen vs :=
  ⟨h.sound.withNext hn, h.once, h.old⟩

theorem right (h : d.Ready single old seen (vs ++ ws)) (hd' : d'.Sound single old (seen ++ vs)) :
    d'.Ready single old (seen ++ vs) ws where
  sound := hd'
  once := by
    rw [List.append_assoc]
    exact h.once
  old v hv := h.old v (List.mem_append_right _ hv)

/-- The order of the variables makes no difference. -/
theorem perm (h : d.Ready single old seen vs) (hp : vs.Perm ws) : d.Ready single old seen ws where
  sound := h.sound
  once := h.once.of_count_le fun v =>
    Nat.le_of_eq (by rw [List.count_append, List.count_append, hp.count_eq])
  old v hv := h.old v (hp.mem_iff.2 hv)

/-- **A test asks whether everything has been seen.** -/
theorem isBound_iff {t : Term} (h : d.Ready single old seen t.occurrences) :
    (t.substitute d.inlined).isBoundBy d.bound = t.isBoundBy seen :=
  h.sound.isBound_iff h.once h.old

theorem knows {t : Term} (h : d.Ready single old seen t.occurrences)
    (ht : t.isBoundBy seen = true) : ∀ v ∈ t.occurrences, d.Knows v :=
  fun _ hv => h.sound.knows_of_bound h.once ht hv

/-- A term that has been seen reads what steps have bound. -/
theorem occurrences_subset {t : Term} (h : d.Ready single old seen t.occurrences)
    (ht : t.isBoundBy seen = true) : (t.substitute d.inlined).occurrences ⊆ d.written :=
  h.sound.occurrences_substitute (h.knows ht)

/-- **A term that has been seen has one value**, as it reads in the draft and in the environment. -/
theorem value?_eq {t : Term} (h : d.Ready single old seen t.occurrences)
    (ht : t.isBoundBy seen = true) {fns : Functions} {b : Bindings} {ρ : Env}
    (hm : d.Matches fns old b ρ) :
    (t.substitute d.inlined).value? b.get? fns = t.value? ρ fns :=
  hm.value?_eq h.old (h.knows ht)

end Ready

theorem mem_of_isBoundBy {t : Term} {v : Var} (h : t.isBoundBy seen = true)
    (hv : v ∈ t.occurrences) : v ∈ seen :=
  List.contains_iff_mem.1 (List.all_eq_true.1 h v hv)

/-- A variable that has not been seen is neither bound nor inlined. -/
theorem Sound.notMem_bound (h : d.Sound single old seen) {v : Var} (hv : v ∉ seen)
    (ho : v.number < old) : v ∉ d.bound ∧ d.inlined.get? v = none := by
  constructor
  · intro hb
    rcases h.bound_cases v hb with hw | hs
    · exact hv (h.known_seen (.inl hw) ho)
    · exact hv hs.1
  · by_contra hn
    obtain ⟨t, ht⟩ := Option.ne_none_iff_exists'.1 hn
    exact hv (h.inlined_seen v t ht)

/-- A variable still to be invented is neither seen nor bound nor inlined. -/
theorem Sound.notMem_of_next_le (h : d.Sound single old seen) {v : Var} (hv : d.next ≤ v.number) :
    v ∉ seen ∧ v ∉ d.bound ∧ d.inlined.get? v = none := by
  have hseen : v ∉ seen := fun hs => by
    have := h.seen_old v hs
    have := h.old_le
    omega
  refine ⟨hseen, fun hb => ?_, ?_⟩
  · rcases h.bound_cases v hb with hw | hs
    · rcases h.written_cases v hw with hs | hw
      · exact hseen hs
      · omega
    · exact hseen hs.1
  · by_contra hn
    obtain ⟨t, ht⟩ := Option.ne_none_iff_exists'.1 hn
    exact hseen (h.inlined_seen v t ht)

/-- **Comparing terms that steps have bound keeps the invariant.** -/
theorem Sound.check (h : d.Sound single old seen) {l r : Term} (negated : Bool) {vs : List Var}
    (hl : l.occurrences ⊆ d.written) (hr : r.occurrences ⊆ d.written)
    (known : ∀ v ∈ vs, d.Knows v) (hold : ∀ v ∈ vs, v.number < old) :
    (d.emitted (.check l r negated)).Sound single old (seen ++ vs) := by
  refine h.emit (fun v hv => List.mem_append_left _ hv) ⟨?_, nofun, nofun, List.nodup_nil, ?_, ?_,
    nofun, ?_⟩
  · exact List.append_subset.2 ⟨hl, hr⟩
  · intro v hv _
    exact .inl (List.append_subset.2 ⟨hl, hr⟩ (List.mem_eraseDups.1 hv))
  · intro v hv
    rcases List.mem_append.1 hv with hv | hv
    · exact .inr (h.seen_cases v hv)
    · exact .inr (.inl (known v hv))
  · intro v hv
    rcases List.mem_append.1 hv with hv | hv
    · exact h.seen_old v hv
    · exact hold v hv

/-- **From `d` to `d'` compilation learns the variables**, and what it adds comes to `M`. -/
structure Learns (single : Var → Prop) (old : Nat) (s : Scene) (seen vs : List Var) (d d' : Draft)
    (M : Bool → Bindings → Env → Prop) : Prop where
  sound : d'.Sound single old (seen ++ vs)
  known : ∀ v ∈ vs, d'.Knows v
  adds : ∃ new, Adds s old d d' new M

/-- Only the members of what is learnt matter. -/
theorem Learns.congr {vs ws : List Var} {M : Bool → Bindings → Env → Prop}
    (h : Learns single old s seen vs d d' M) (hs : ∀ v, v ∈ seen ++ vs ↔ v ∈ seen ++ ws)
    (known : ∀ v ∈ ws, v ∈ vs ∨ d'.Knows v) : Learns single old s seen ws d d' M :=
  ⟨h.sound.congr hs, fun v hv => (known v hv).elim (h.known v) id, h.adds⟩

theorem Learns.perm {vs ws : List Var} {M : Bool → Bindings → Env → Prop}
    (h : Learns single old s seen vs d d' M) (hp : vs.Perm ws) :
    Learns single old s seen ws d d' M :=
  h.congr (fun _ => (hp.append_left seen).mem_iff) fun _ hv => .inl (hp.mem_iff.2 hv)

/-- **Learning one thing after the other.** -/
theorem Learns.trans {vs ws : List Var} {M M' N : Bool → Bindings → Env → Prop}
    (h : Learns single old s seen vs d d' M) (h' : Learns single old s (seen ++ vs) ws d' d'' M')
    (sound : ∀ {b b' ρ}, Bindings.Agree d.written b' b → M true b ρ → M' true b' ρ → N true b ρ)
    (complete : ∀ {strict b ρ}, N strict b ρ → M strict b ρ ∧
      ∀ b', Bindings.Agree d.written b' b → M' strict b' ρ) :
    Learns single old s seen (vs ++ ws) d d'' N := by
  obtain ⟨new, adds⟩ := h.adds
  obtain ⟨new', adds'⟩ := h'.adds
  refine ⟨by rw [← List.append_assoc]; exact h'.sound, fun v hv => ?_, new ++ new', ?_⟩
  · rcases List.mem_append.1 hv with hv | hv
    · exact adds'.knows (h.known v hv)
    · exact h'.known v hv
  · exact adds.trans adds' h.sound h'.sound (fun _ => sound) fun hM =>
      ⟨(complete hM).1, fun b' _ => (complete hM).2 b'⟩

end Draft

end Datalog
