import Datalog.Proofs.Compile.Action

/-!
# Proofs/Compile/Pattern — matching a value against a term

A pattern **receives** a value if it has that value itself.  The proof follows the recursion of
`Compile.bindPattern`: variables are bound or inlined, constructors are taken apart, and each
argument receives what the invented variable at its position holds.
-/

namespace Datalog

/-- **The term has the value that is offered**, or in the lax form lacks one together with it.  A
variable that is only inlined may lack one in either form. -/
def Term.Receives (mode : Unification) (strict : Bool) (fns : Functions) (ρ : Env) (t : Term)
    (offer : Option Term) : Prop :=
  t.value? ρ fns = offer ∧
    (strict = true → offer.isSome = true ∨ mode = .inline ∧ ∃ v, t = .var v)

/-- An offered value is received in either form. -/
theorem Term.receives_some_iff {mode : Unification} {strict : Bool} {fns : Functions} {ρ : Env}
    {t x : Term} : t.Receives mode strict fns ρ (some x) ↔ t.value? ρ fns = some x :=
  ⟨fun h => h.1, fun h => ⟨h, fun _ => .inl rfl⟩⟩

/-- **Taking a value apart into invented variables keeps the invariant.** -/
theorem Draft.Sound.destruct {single : Var → Prop} {old : Nat} {seen : List Var} {d : Draft}
    (h : d.Sound single old seen) (f : String) (n : Nat) {value : Term}
    (hvalue : value.occurrences ⊆ d.written) :
    (({ d with next := d.next + n } : Draft).emitted
      (.destruct value f (Var.freshes d.next n))).Sound single old seen := by
  have fresh {v : Var} (hv : v ∈ Var.freshes d.next n) :=
    h.notMem_of_next_le (Var.number_of_mem_freshes hv).1
  refine (h.withNext (Nat.le_add_right d.next n)).emit (List.Subset.refl _) ⟨hvalue,
    fun v hv => (fresh hv).2.1, fun v hv => (fresh hv).2.2, Var.nodup_freshes .., ?_,
    fun v hv => .inr (h.seen_cases v hv), ?_, h.seen_old⟩
  · intro v hv _
    rcases List.mem_append.1 (List.mem_eraseDups.1 hv) with hv | hv
    · exact .inl (hvalue hv)
    · exact .inr (.inl hv)
  · intro v hv
    obtain ⟨hlow, hhigh⟩ := Var.number_of_mem_freshes hv
    exact .inr ⟨Nat.le_trans h.old_le hlow, hhigh⟩

namespace Compile

open Draft

variable {single : Var → Prop} {old : Nat} {s : Scene} {rule : Rule} {mode : Unification}

/-- What each binder holds is received at its position. -/
def AllReceive (mode : Unification) (fns : Functions) (ys : List Var) (ts : List Term)
    (strict : Bool) (b : Bindings) (ρ : Env) : Prop :=
  List.Forall₂ (fun y t => t.Receives mode strict fns ρ (b.get? y)) ys ts

theorem AllReceive.congr {fns : Functions} {ys : List Var} {ts : List Term} {strict : Bool}
    {b b' : Bindings} {ρ : Env} {vs : List Var} (h : AllReceive mode fns ys ts strict b ρ)
    (hs : ys ⊆ vs) (agree : Bindings.Agree vs b' b) : AllReceive mode fns ys ts strict b' ρ := by
  unfold AllReceive at h ⊢
  induction h with
  | nil => exact .nil
  | cons h _ ih =>
    refine .cons ?_ (ih fun v hv => hs (List.mem_cons_of_mem _ hv))
    rwa [agree _ (hs (List.mem_cons_self ..))]

/-- **Binders that hold values** are received exactly by terms with those values. -/
theorem allReceive_iff {fns : Functions} {ys : List Var} {ts xs : List Term} {strict : Bool}
    {b : Bindings} {ρ : Env} (held : List.Forall₂ (fun y x => b.get? y = some x) ys xs) :
    AllReceive mode fns ys ts strict b ρ ↔
      List.Forall₂ (fun t x => t.value? ρ fns = some x) ts xs := by
  unfold AllReceive
  induction held generalizing ts with
  | nil =>
    cases ts with
    | nil => exact ⟨fun _ => .nil, fun _ => .nil⟩
    | cons t ts => exact ⟨nofun, nofun⟩
  | cons hy _ ih =>
    cases ts with
    | nil => exact ⟨nofun, nofun⟩
    | cons t ts => rw [List.forall₂_cons, List.forall₂_cons, ih, hy, Term.receives_some_iff]

/-- **The meaning of a pattern**: it receives the value it is matched against. -/
def PatternLearns (single : Var → Prop) (old : Nat) (s : Scene) (rule : Rule)
    (mode : Unification) (t : Term) : Prop :=
  ∀ {seen : List Var} {d d' : Draft} {l : Literal} {u : Term},
    d.Ready single old seen t.occurrences → t.isBoundBy seen = false →
    u.occurrences ⊆ d.written → bindPattern rule mode l u t d = .ok () d' →
    Learns single old s seen t.occurrences d d' fun strict b ρ =>
      t.Receives mode strict s.functions ρ (u.value? b.get? s.functions)

/-- **A variable that stands for the value** from here on receives it. -/
theorem inline_learns {v : Var} {value : Term} {seen : List Var} {d : Draft}
    (sound : d.Sound single old seen) (hseen : v ∉ seen) (ho : v.number < old)
    (hvalue : value.occurrences ⊆ d.written)
    (asked : mode = .inline ∨ value.asVar?.isSome = true) :
    Learns single old s seen [v] d (d.inlining v value) fun strict b ρ =>
      (Term.var v).Receives mode strict s.functions ρ (value.value? b.get? s.functions) := by
  obtain ⟨hbound, hinlined⟩ := sound.notMem_bound hseen ho
  have after := sound.inline hbound hvalue ho
  refine ⟨after, fun w hw => .inr ⟨value, ?_⟩, [], .inline sound after hinlined ?_ ?_ ho⟩
  · obtain rfl := List.mem_singleton.1 hw
    rw [inlining, Assoc.get?_put, if_pos rfl]
  · intro b ρ hb h
    refine ⟨by rw [Term.value?_var, h], fun _ => ?_⟩
    rcases asked with hmode | named
    · exact .inr ⟨hmode, v, rfl⟩
    · cases value with
      | var w =>
        obtain ⟨x, hx⟩ := hb w (hvalue (List.mem_singleton.2 rfl))
        exact .inl (by rw [Term.value?_var, hx]; rfl)
      | ctor | lit | call => cases named
  · intro strict b ρ h
    rw [← h.1, Term.value?_var]

/-- **Assigning** to an unseen variable is sound. -/
theorem sound_assign {v : Var} {value : Term} {seen : List Var} {d : Draft}
    (sound : d.Sound single old seen) (hseen : v ∉ seen) (ho : v.number < old)
    (hvalue : value.occurrences ⊆ d.written) :
    (d.emitted (.assign v value)).Sound single old (seen ++ [v]) := by
  obtain ⟨hbound, hinlined⟩ := sound.notMem_bound hseen ho
  refine sound.emit (fun w hw => List.mem_append_left _ hw) ⟨hvalue, ?_, ?_,
    by simp [Step.writes], ?_, ?_, ?_, ?_⟩
  · intro w hw
    exact List.mem_singleton.1 hw ▸ hbound
  · intro w hw
    exact List.mem_singleton.1 hw ▸ hinlined
  · intro w hw _
    rcases List.mem_cons.1 (List.mem_eraseDups.1 hw) with rfl | hw
    · exact .inr (.inl (List.mem_singleton.2 rfl))
    · exact .inl (hvalue hw)
  · intro w hw
    rcases List.mem_append.1 hw with hw | hw
    · exact .inr (sound.seen_cases w hw)
    · exact .inl hw
  · intro w hw
    exact .inl (List.mem_append_right _ hw)
  · intro w hw
    rcases List.mem_append.1 hw with hw | hw
    · exact sound.seen_old w hw
    · exact List.mem_singleton.1 hw ▸ ho

/-- **A variable that the value is assigned to** receives it; the assignment asks for the value. -/
theorem assign_learns {v : Var} {value : Term} {seen : List Var} {d : Draft}
    (sound : d.Sound single old seen) (hseen : v ∉ seen) (ho : v.number < old)
    (hvalue : value.occurrences ⊆ d.written)
    (assigns : mode ≠ .inline) :
    Learns single old s seen [v] d (d.emitted (.assign v value)) fun strict b ρ =>
      (Term.var v).Receives mode strict s.functions ρ (value.value? b.get? s.functions) := by
  have after := sound_assign sound hseen ho hvalue
  refine ⟨after, fun w hw => .inl ?_, _, .emit sound after (fun _ h => by cases h) ?_ ?_⟩
  · rw [written_emitted]
    exact List.mem_append_right _ hw
  · intro b b' ρ _ leads _ hw
    obtain ⟨x, hx, rfl⟩ := Step.leads_assign_iff.1 leads
    rw [hx, Term.receives_some_iff, Term.value?_var,
      ← hw v (List.mem_singleton.2 rfl) ho, Assoc.get?_put, if_pos rfl]
  · intro strict b ρ _ _ h
    cases hx : value.value? b.get? s.functions with
    | some x =>
      rw [hx, Term.receives_some_iff, Term.value?_var] at h
      refine .inl ⟨b.put v x, Step.leads_assign_iff.2 ⟨x, hx, rfl⟩, fun w hw _ => ?_⟩
      obtain rfl := List.mem_singleton.1 hw
      rw [Assoc.get?_put, if_pos rfl, h]
    | none =>
      refine .inr ⟨hx, ?_⟩
      by_contra hs
      rcases h.2 (by simpa using hs) with hn | hn
      · rw [hx] at hn
        cases hn
      · exact assigns hn.1

/-- A variable of a pattern is bound, or stands for the value from here on. -/
theorem patternLearns_var (v : Var) : PatternLearns single old s rule mode (.var v) := by
  intro seen d d' l value ready free hvalue ok
  have hseen : v ∉ seen := by simpa [Term.isBoundBy, Term.occurrences] using free
  have ho : v.number < old := ready.old v (List.mem_singleton.2 rfl)
  rw [bindPattern] at ok
  split at ok
  · next asked =>
    obtain rfl := inline_ok_iff.1 ok
    exact inline_learns ready.sound hseen ho hvalue asked
  · next refused =>
    obtain rfl := emit_ok_iff.1 ok
    exact assign_learns ready.sound hseen ho hvalue fun inlines => refused (.inl inlines)

/-- **A binder of a bound term** is compared with it. -/
theorem checkBinder_learns {y : Var} {t : Term} {seen : List Var} {d : Draft}
    (ready : d.Ready single old seen t.occurrences) (bound : t.isBoundBy seen = true)
    (hy : y ∈ d.written) : Learns single old s seen t.occurrences d
      (d.emitted (.check (.var y) (t.substitute d.inlined) false))
      fun strict b ρ => t.Receives mode strict s.functions ρ (b.get? y) := by
  have sound := ready.sound.check (l := .var y) (r := t.substitute d.inlined) false
    (fun v hv => List.mem_singleton.1 hv ▸ hy) (ready.occurrences_subset bound)
    (ready.knows bound) ready.old
  refine ⟨sound, fun v hv => (Grows.emitted d _).knows (ready.knows bound v hv), _,
    (Adds.check ready.sound sound).imp ready.sound sound ?_ ?_⟩
  · rintro b ρ _ hm (⟨x, z, hx, hz, hxz⟩ | ⟨_, hn⟩)
    · rw [Term.value?_var] at hx
      rw [hx, Term.receives_some_iff, ← ready.value?_eq bound hm, hz, hxz.2 rfl]
    · cases hn
  · intro strict b ρ hb hm h
    obtain ⟨x, hx⟩ := hb y hy
    rw [hx, Term.receives_some_iff, ← ready.value?_eq bound hm] at h
    exact .inl ⟨x, x, by rw [Term.value?_var, hx], h, by simp⟩

/-- The equations between binders and the terms at their positions, one after the other. -/
theorem equateBinders_learns {args : List Term}
    (ih : ∀ a ∈ args, PatternLearns single old s rule mode a) :
    ∀ {ys : List Var} {seen : List Var} {d d' : Draft}, ys.length = args.length →
      d.Ready single old seen (Term.occurrencesOf args) → ys ⊆ d.written →
      equateBinders rule mode ys args d = .ok () d' →
      Learns single old s seen (Term.occurrencesOf args) d d'
        (AllReceive mode s.functions ys args) := by
  induction args with
  | nil =>
    intro ys seen d d' hlen ready _ ok
    obtain rfl := List.length_eq_zero_iff.1 hlen
    rw [equateBinders.eq_def] at ok
    obtain ⟨_, rfl⟩ := Outcome.pure_ok_iff.1 ok
    refine ⟨?_, nofun, [], (Adds.refl s old d).imp ready.sound ready.sound
      (fun _ _ _ => .nil) fun _ _ _ => trivial⟩
    rw [Term.occurrencesOf, List.append_nil]
    exact ready.sound
  | cons t ts ihts =>
    intro ys seen d d' hlen ready hys ok
    cases ys with
    | nil => exact absurd hlen (by simp)
    | cons y ys =>
      rw [equateBinders] at ok
      obtain ⟨t', _, ht', ok⟩ := Outcome.bind_ok_iff.1 ok
      obtain ⟨rfl, rfl⟩ := current_ok_iff.1 ht'
      obtain ⟨bound, _, hb, ok⟩ := Outcome.bind_ok_iff.1 ok
      obtain ⟨rfl, rfl⟩ := isBound_ok_iff.1 hb
      have hy : y ∈ d.written := hys (List.mem_cons_self ..)
      obtain ⟨d₁, learns, ok⟩ : ∃ d₁, Learns single old s seen t.occurrences d d₁
          (fun strict b ρ => t.Receives mode strict s.functions ρ (b.get? y)) ∧
          equateBinders rule mode ys ts d₁ = .ok () d' := by
        rw [ready.left.isBound_iff] at ok
        split at ok
        · next bound =>
          obtain ⟨⟨⟩, d₁, first, ok⟩ := Outcome.bind_ok_iff.1 ok
          obtain rfl := emit_ok_iff.1 first
          exact ⟨_, checkBinder_learns ready.left bound hy, ok⟩
        · next unbound =>
          obtain ⟨⟨⟩, d₁, first, ok⟩ := Outcome.bind_ok_iff.1 ok
          have learns := ih t (List.mem_cons_self ..) ready.left (by simpa using unbound)
            (u := .var y) (fun v hv => List.mem_singleton.1 hv ▸ hy) first
          exact ⟨d₁, by simpa only [Term.value?_var] using learns, ok⟩
      obtain ⟨new, adds⟩ := learns.adds
      have rest := ihts (fun a ha => ih a (List.mem_cons_of_mem _ ha)) (Nat.succ.inj hlen)
        (ready.right learns.sound)
        (fun v hv => adds.written ▸ List.mem_append_left _ (hys (List.mem_cons_of_mem _ hv))) ok
      have hys' : ys ⊆ d.written := fun v hv => hys (List.mem_cons_of_mem _ hv)
      refine learns.trans rest ?_ ?_
      · intro b b' ρ agree h h'
        exact .cons h (h'.congr hys' agree.symm)
      · intro strict b ρ h
        obtain ⟨h, h'⟩ := List.forall₂_cons.1 h
        exact ⟨h, fun b' agree => AllReceive.congr h' hys' agree⟩

/-- The draft after a value has been taken apart into so many binders. -/
abbrev takenApart (d : Draft) (value : Term) (f : String) (n : Nat) : Draft :=
  ({ d with next := d.next + n } : Draft).emitted (.destruct value f (Var.freshes d.next n))

/-- **Taking a value apart** asks for the constructor and the number of its arguments. -/
theorem adds_destruct {f : String} {n : Nat} {value : Term} {seen : List Var}
    (sound : d.Sound single old seen) (hvalue : value.occurrences ⊆ d.written) :
    Adds s old d (takenApart d value f n) [.destruct value f (Var.freshes d.next n)]
      fun strict b _ =>
        (∃ xs, value.value? b.get? s.functions = some (.ctor f xs) ∧ xs.length = n) ∨
        value.value? b.get? s.functions = none ∧ strict = false := by
  have next : d.next ≤ d.next + n := Nat.le_add_right ..
  refine .withNext next (.emit (sound.withNext next) (sound.destruct f n hvalue)
    (fun _ h => nomatch h) ?_ ?_)
  · intro b b' ρ _ leads _ _
    obtain ⟨xs, hx, hlen, _⟩ := Step.leads_destruct_iff.1 leads
    exact .inl ⟨xs, hx, by rw [hlen, Var.length_freshes]⟩
  · rintro strict b ρ _ _ (⟨xs, hx, hlen⟩ | hn)
    · refine .inl ⟨_, Step.leads_destruct_iff.2 ⟨xs, hx, by rw [hlen, Var.length_freshes], rfl⟩,
        fun v hv hlt => ?_⟩
      have := (Var.number_of_mem_freshes hv).1
      have := sound.old_le
      omega
    · exact .inr hn

/-- What the binders hold once the value has been taken apart. -/
theorem holds_of_destruct {f : String} {n next : Nat} {value : Term} {b b' : Bindings}
    (path : Step.Path s [.destruct value f (Var.freshes next n)] b b') :
    ∃ xs, value.value? b.get? s.functions = some (.ctor f xs) ∧
      List.Forall₂ (fun y x => b'.get? y = some x) (Var.freshes next n) xs := by
  obtain ⟨xs, hx, hlen, rfl⟩ := Step.leads_destruct_iff.1 (Step.path_singleton_iff.1 path)
  refine ⟨xs, hx, List.forall₂_iff_zip.2 ⟨hlen.symm, fun {y x} hyx => ?_⟩⟩
  refine Assoc.get?_putAll_of_mem ?_ hyx
  rw [List.map_fst_zip (Nat.le_of_eq hlen.symm)]
  exact Var.nodup_freshes ..

/-- **What binders hold and pass on** is what the constructor pattern receives. -/
theorem receives_of_destruct {f : String} {args : List Term} {next : Nat} {value : Term}
    {b b' : Bindings} {ρ : Env}
    (path : Step.Path s [.destruct value f (Var.freshes next args.length)] b b')
    (all : AllReceive mode s.functions (Var.freshes next args.length) args true b' ρ) :
    (Term.ctor f args).Receives mode true s.functions ρ (value.value? b.get? s.functions) := by
  obtain ⟨xs, hx, hxs⟩ := holds_of_destruct path
  rw [hx, Term.receives_some_iff]
  exact Term.value?_ctor_eq_some_iff.2 ⟨xs, rfl, (allReceive_iff hxs).1 all⟩

/-- **What the constructor pattern receives** can be taken apart, and the binders pass it on. -/
theorem destruct_of_receives {f : String} {args : List Term} {next : Nat} {value : Term}
    {strict : Bool} {b : Bindings} {ρ : Env}
    (h : (Term.ctor f args).Receives mode strict s.functions ρ (value.value? b.get? s.functions)) :
    ((∃ xs, value.value? b.get? s.functions = some (.ctor f xs) ∧ xs.length = args.length) ∨
      value.value? b.get? s.functions = none ∧ strict = false) ∧
    ∀ b', Step.Path s [.destruct value f (Var.freshes next args.length)] b b' →
      AllReceive mode s.functions (Var.freshes next args.length) args strict b' ρ := by
  cases hx : value.value? b.get? s.functions with
  | some x =>
    rw [hx, Term.receives_some_iff] at h
    obtain ⟨xs, rfl, hargs⟩ := Term.value?_ctor_eq_some_iff.1 h
    refine ⟨.inl ⟨xs, rfl, hargs.length_eq.symm⟩, fun b' path => ?_⟩
    obtain ⟨zs, hz, hzs⟩ := holds_of_destruct path
    rw [hx] at hz
    cases hz
    exact (allReceive_iff hzs).2 hargs
  | none =>
    rw [hx] at h
    refine ⟨.inr ⟨rfl, ?_⟩, fun b' path => ?_⟩
    · by_contra hs
      rcases h.2 (by simpa using hs) with hn | ⟨_, v, hv⟩
      · cases hn
      · cases hv
    · obtain ⟨zs, hz, _⟩ := holds_of_destruct path
      rw [hx] at hz
      cases hz

/-- A constructor is taken apart, and its arguments receive those of the value. -/
theorem patternLearns_ctor {f : String} {args : List Term}
    (ih : ∀ a ∈ args, PatternLearns single old s rule mode a) :
    PatternLearns single old s rule mode (.ctor f args) := by
  intro seen d d' l value ready _ hvalue ok
  rw [bindPattern] at ok
  obtain ⟨ys, _, hys, ok⟩ := Outcome.bind_ok_iff.1 ok
  obtain ⟨rfl, rfl⟩ := inventAll_ok_iff.1 hys
  obtain ⟨⟨⟩, d₁, hemit, ok⟩ := Outcome.bind_ok_iff.1 ok
  obtain rfl := emit_ok_iff.1 hemit
  have first := adds_destruct (s := s) (f := f) (n := args.length) ready.sound hvalue
  have sound := ready.sound.destruct f args.length hvalue
  have written : Var.freshes d.next args.length ⊆ (takenApart d value f args.length).written := by
    rw [first.written]
    exact fun v hv => List.mem_append_right _ (List.mem_append_left _ hv)
  have rest := equateBinders_learns ih (Var.length_freshes ..) ⟨sound, ready.once, ready.old⟩
    written ok
  obtain ⟨new, adds⟩ := rest.adds
  refine ⟨rest.sound, rest.known, _, first.trans adds sound rest.sound ?_ ?_⟩
  · exact fun path _ _ all => receives_of_destruct path all
  · intro strict b ρ h
    obtain ⟨asked, all⟩ := destruct_of_receives h
    exact ⟨asked, fun b' path _ => all b' path⟩

/-- **A pattern receives the value it is matched against.** -/
theorem patternLearns (t : Term) : PatternLearns single old s rule mode t := by
  induction t with
  | var v => exact patternLearns_var v
  | ctor f args ih => exact patternLearns_ctor ih
  | lit | call =>
    intro seen d d' l value _ _ _ ok
    rw [bindPattern] at ok
    exact (Outcome.throw_ok_iff.1 ok).elim

end Compile

end Datalog
