import Datalog.Proofs.Compile.Pattern

/-!
# Proofs/Compile/Equation — what an equation comes to

Two terms **fit** if they have the same value; but a variable that is inlined stands for its term
even where the term has no value, and two constructors may be equated argument by argument.  Which
of the three an equation uses depends on the variables that are known when it is compiled, so
`Term.Fits` is relative to a list of them: the more are known, the less is let pass
(`Term.Fits.anti`).
-/

namespace Datalog

namespace Term

section

variable (mode : Unification) (fns : Functions) (ρ : Env)

/-- **The same value, or the lack of one** if a variable that is not known is inlined. -/
def Alike (known : List Var) (l r : Term) : Prop :=
  l.value? ρ fns = r.value? ρ fns ∧
    ((l.value? ρ fns).isSome = true ∨ mode = .inline ∧ ∃ v, v ∉ known ∧ (l = .var v ∨ r = .var v))

mutual

/-- **The environment makes the two sides of an equation fit.** -/
def Fits (known : List Var) (l r : Term) : Prop :=
  Alike mode fns ρ known l r ∨
    match l, r with
    | .ctor f as, .ctor g bs => f = g ∧ (ctor f as).isBoundBy known = false ∧
        (ctor g bs).isBoundBy known = false ∧ FitsAll known as bs
    | _, _ => False

/-- Two argument lists fit, each pair knowing the pairs before it. -/
def FitsAll (known : List Var) : List Term → List Term → Prop
  | [], [] => True
  | l :: ls, r :: rs => Fits known l r ∧ FitsAll (known ++ (l.occurrences ++ r.occurrences)) ls rs
  | _, _ => False

end

end

variable {mode : Unification} {fns : Functions} {ρ : Env} {known known' : List Var}

theorem isBoundBy_false_of_subset {t : Term} (h : t.isBoundBy known = false)
    (hs : known' ⊆ known) : t.isBoundBy known' = false := by
  by_contra hn
  refine Bool.eq_false_iff.1 h (List.all_eq_true.2 fun v hv => List.contains_iff_mem.2 ?_)
  exact hs (List.contains_iff_mem.1 (List.all_eq_true.1 (by rwa [Bool.not_eq_false] at hn) v hv))

theorem Alike.anti {l r : Term} (h : Alike mode fns ρ known l r) (hs : known' ⊆ known) :
    Alike mode fns ρ known' l r := by
  refine ⟨h.1, h.2.imp_right ?_⟩
  rintro ⟨hm, v, hv, e⟩
  exact ⟨hm, v, fun hv' => hv (hs hv'), e⟩

/-- An equation of constructors fits as a whole, or argument by argument. -/
theorem fits_ctor_iff {f g : String} {as bs : List Term} :
    Fits mode fns ρ known (.ctor f as) (.ctor g bs) ↔
      Alike mode fns ρ known (.ctor f as) (.ctor g bs) ∨ f = g ∧
        (ctor f as).isBoundBy known = false ∧ (ctor g bs).isBoundBy known = false ∧
        FitsAll mode fns ρ known as bs := by
  rw [Fits]

/-- Any other equation fits as a whole. -/
theorem Fits.cases {l r : Term} (h : Fits mode fns ρ known l r) :
    Alike mode fns ρ known l r ∨ ∃ f as bs, l = .ctor f as ∧ r = .ctor f bs ∧
      l.isBoundBy known = false ∧ r.isBoundBy known = false ∧ FitsAll mode fns ρ known as bs := by
  unfold Fits at h
  refine h.imp_right fun h => ?_
  split at h
  · obtain ⟨rfl, hl, hr, h⟩ := h
    exact ⟨_, _, _, rfl, rfl, hl, hr, h⟩
  · cases h

theorem Alike.fits {l r : Term} (h : Alike mode fns ρ known l r) : Fits mode fns ρ known l r := by
  unfold Fits
  exact .inl h

theorem fitsAll_anti {ls : List Term} (ih : ∀ l ∈ ls, ∀ {known known' : List Var} {r : Term},
      Fits mode fns ρ known l r → known' ⊆ known → Fits mode fns ρ known' l r) :
    ∀ {known known' : List Var} {rs : List Term}, FitsAll mode fns ρ known ls rs →
      known' ⊆ known → FitsAll mode fns ρ known' ls rs := by
  induction ls with
  | nil =>
    intro known known' rs h _
    cases rs with
    | nil => trivial
    | cons => cases h
  | cons l ls ihls =>
    intro known known' rs h hs
    cases rs with
    | nil => cases h
    | cons r rs =>
      rw [FitsAll] at h ⊢
      refine ⟨ih l (List.mem_cons_self ..) h.1 hs,
        ihls (fun c hc => ih c (List.mem_cons_of_mem _ hc)) h.2 ?_⟩
      exact List.append_subset.2 ⟨fun v hv => List.mem_append_left _ (hs hv),
        List.subset_append_right ..⟩

/-- **Whatever fits with more variables known fits with fewer.** -/
theorem Fits.anti {l r : Term} (h : Fits mode fns ρ known l r) (hs : known' ⊆ known) :
    Fits mode fns ρ known' l r := by
  induction l generalizing known known' r with
  | ctor f as ih =>
    rcases h.cases with h | ⟨_, _, bs, ⟨⟩, rfl, hl, hr, h⟩
    · exact (h.anti hs).fits
    · exact fits_ctor_iff.2 (.inr ⟨rfl, isBoundBy_false_of_subset hl hs,
        isBoundBy_false_of_subset hr hs, fitsAll_anti ih h hs⟩)
  | var | lit | call =>
    rcases h.cases with h | ⟨_, _, _, ⟨⟩, _⟩
    exact (h.anti hs).fits

theorem FitsAll.anti {ls rs : List Term} (h : FitsAll mode fns ρ known ls rs)
    (hs : known' ⊆ known) : FitsAll mode fns ρ known' ls rs :=
  fitsAll_anti (fun _ _ => Fits.anti) h hs

/-- **Terms that fit have the same value**, if either has one. -/
theorem Fits.value?_eq {l r : Term} (h : Fits mode fns ρ known l r) :
    l.value? ρ fns = r.value? ρ fns := by
  induction l generalizing known r with
  | ctor f as ih =>
    replace h := h.cases
    rcases h with h | ⟨_, _, bs, ⟨⟩, rfl, hl, hr, h⟩
    · exact h.1
    · clear hl hr
      have all : values? ρ fns as = values? ρ fns bs := by
        induction as generalizing known bs with
        | nil =>
          cases bs with
          | nil => rfl
          | cons => cases h
        | cons a as ihas =>
          cases bs with
          | nil => cases h
          | cons b bs =>
            rw [FitsAll] at h
            have ha := ih a (List.mem_cons_self ..) h.1
            have has := ihas (fun c hc => ih c (List.mem_cons_of_mem _ hc)) bs h.2
            rw [values?] at has
            rw [values?, values?, List.mapM_cons, List.mapM_cons, ha, has, values?]
      rw [value?_ctor, value?_ctor, all]
  | var | lit | call =>
    rcases h.cases with h | ⟨_, _, _, ⟨⟩, _⟩
    exact h.1

/-- **Against a known right side** the left side receives its value. -/
theorem Fits.receives_left {l r : Term} (h : Fits mode fns ρ known l r)
    (hr : r.isBoundBy known = true) : l.Receives mode true fns ρ (r.value? ρ fns) := by
  rcases h.cases with ⟨he, h⟩ | ⟨_, _, _, _, _, _, hn, _⟩
  · refine ⟨he, fun _ => ?_⟩
    rcases h with h | ⟨hm, v, hv, rfl | rfl⟩
    · exact .inl (he ▸ h)
    · exact .inr ⟨hm, v, rfl⟩
    · exact absurd (Draft.mem_of_isBoundBy hr (List.mem_singleton.2 rfl)) hv
  · rw [hr] at hn
    cases hn

/-- **Against a known left side** the right side receives its value. -/
theorem Fits.receives_right {l r : Term} (h : Fits mode fns ρ known l r)
    (hl : l.isBoundBy known = true) : r.Receives mode true fns ρ (l.value? ρ fns) := by
  rcases h.cases with ⟨he, h⟩ | ⟨_, _, _, _, _, hn, _⟩
  · refine ⟨he.symm, fun _ => ?_⟩
    rcases h with h | ⟨hm, v, hv, rfl | rfl⟩
    · exact .inl h
    · exact absurd (Draft.mem_of_isBoundBy hl (List.mem_singleton.2 rfl)) hv
    · exact .inr ⟨hm, v, rfl⟩
  · rw [hl] at hn
    cases hn

/-- Two known sides have a value. -/
theorem Fits.isSome {l r : Term} (h : Fits mode fns ρ known l r)
    (hl : l.isBoundBy known = true) (hr : r.isBoundBy known = true) :
    (l.value? ρ fns).isSome = true := by
  rcases h.cases with ⟨he, h⟩ | ⟨_, _, _, _, _, hn, _⟩
  · rcases h with h | ⟨_, v, hv, rfl | rfl⟩
    · exact h
    · exact absurd (Draft.mem_of_isBoundBy hl (List.mem_singleton.2 rfl)) hv
    · exact absurd (Draft.mem_of_isBoundBy hr (List.mem_singleton.2 rfl)) hv
  · rw [hl] at hn
    cases hn

/-- A side that receives the value of the other is like it. -/
theorem Receives.alike {l r : Term} {known : List Var} (h : l.Receives mode true fns ρ (r.value? ρ fns))
    (hl : l.isBoundBy known = false) : Alike mode fns ρ known l r := by
  refine ⟨h.1, (h.2 rfl).imp (fun hs => h.1 ▸ hs) ?_⟩
  rintro ⟨hm, v, rfl⟩
  refine ⟨hm, v, fun hv => ?_, .inl rfl⟩
  rw [isBoundBy, occurrences, List.all_cons, List.contains_iff_mem.2 hv] at hl
  cases hl

theorem Alike.symm {l r : Term} (h : Alike mode fns ρ known l r) :
    Alike mode fns ρ known r l := by
  refine ⟨h.1.symm, h.2.imp (fun hs => h.1 ▸ hs) ?_⟩
  rintro ⟨hm, v, hv, e⟩
  exact ⟨hm, v, hv, e.symm⟩

/-- Argument lists with the same values fit. -/
theorem fitsAll_of_values {ls rs xs : List Term}
    (hl : List.Forall₂ (fun t x => t.value? ρ fns = some x) ls xs)
    (hr : List.Forall₂ (fun t x => t.value? ρ fns = some x) rs xs) :
    FitsAll mode fns ρ known ls rs := by
  induction hl generalizing known rs with
  | nil =>
    cases hr
    trivial
  | cons hl _ ih =>
    cases hr with
    | cons hr hrs =>
      rw [FitsAll]
      exact ⟨Alike.fits ⟨hl.trans hr.symm, .inl (by rw [hl]; rfl)⟩, ih hrs⟩

/-- Constructors that fit, whatever is known, fit argument by argument. -/
theorem Fits.args {f g : String} {as bs : List Term}
    (h : Fits mode fns ρ known (.ctor f as) (.ctor g bs)) : FitsAll mode fns ρ known as bs := by
  rcases fits_ctor_iff.1 h with ⟨he, hs | ⟨_, _, _, hv | hv⟩⟩ | ⟨_, _, _, h⟩
  · obtain ⟨x, hx⟩ := Option.isSome_iff_exists.1 hs
    obtain ⟨xs, rfl, has⟩ := value?_ctor_eq_some_iff.1 hx
    obtain ⟨ys, hxy, hbs⟩ := value?_ctor_eq_some_iff.1 (he ▸ hx)
    cases hxy
    exact fitsAll_of_values has hbs
  · cases hv
  · cases hv
  · exact h

end Term

/-- **What an equation says**: its sides fit, in the strict form in this mode and with everything
seen known. -/
def Term.Fitting (mode : Unification) (fns : Functions) (seen : List Var) (l r : Term)
    (strict : Bool) (ρ : Env) : Prop :=
  ∃ form known, l.Fits form fns ρ known r ∧ (strict = true → form = mode ∧ seen ⊆ known)

namespace Compile

open Draft

variable {single : Var → Prop} {old : Nat} {s : Scene} {rule : Rule} {mode : Unification}
  {seen : List Var} {d d' : Draft} {l r : Term}

/-- **The four ways to equate**, told apart by what has been seen. -/
theorem equate_cases (ready : d.Ready single old seen (l.occurrences ++ r.occurrences))
    (ok : equate rule mode l r d = .ok () d') :
    l.isBoundBy seen = true ∧ r.isBoundBy seen = true ∧
      d' = d.emitted (.check (l.substitute d.inlined) (r.substitute d.inlined) false) ∨
    l.isBoundBy seen = false ∧ r.isBoundBy seen = true ∧
      (∃ literal, bindPattern rule mode literal (r.substitute d.inlined) l d = .ok () d') ∨
    l.isBoundBy seen = true ∧ r.isBoundBy seen = false ∧
      (∃ literal, bindPattern rule mode literal (l.substitute d.inlined) r d = .ok () d') ∨
    l.isBoundBy seen = false ∧ r.isBoundBy seen = false ∧
      ∃ f as bs, l = .ctor f as ∧ r = .ctor f bs ∧ as.length = bs.length ∧
        equateAll rule mode as bs d = .ok () d' := by
  unfold equate at ok
  obtain ⟨_, _, hl, ok⟩ := Outcome.bind_ok_iff.1 ok
  obtain ⟨rfl, rfl⟩ := current_ok_iff.1 hl
  obtain ⟨_, _, hr, ok⟩ := Outcome.bind_ok_iff.1 ok
  obtain ⟨rfl, rfl⟩ := current_ok_iff.1 hr
  obtain ⟨bl, _, hl', ok⟩ := Outcome.bind_ok_iff.1 ok
  obtain ⟨hbl, rfl⟩ := isBound_ok_iff.1 hl'
  obtain ⟨br, _, hr', ok⟩ := Outcome.bind_ok_iff.1 ok
  obtain ⟨hbr, rfl⟩ := isBound_ok_iff.1 hr'
  rw [ready.left.isBound_iff] at hbl
  rw [ready.skip.isBound_iff] at hbr
  cases bl <;> cases br
  · dsimp only at ok
    split at ok
    · next f as g bs =>
      split at ok
      · next h =>
        obtain ⟨rfl, hlen⟩ := h
        exact .inr (.inr (.inr ⟨hbl.symm, hbr.symm, _, _, _, rfl, rfl, hlen, ok⟩))
      · exact (Outcome.throw_ok_iff.1 ok).elim
    · exact (Outcome.throw_ok_iff.1 ok).elim
  · exact .inr (.inl ⟨hbl.symm, hbr.symm, _, ok⟩)
  · exact .inr (.inr (.inl ⟨hbl.symm, hbr.symm, _, ok⟩))
  · exact .inl ⟨hbl.symm, hbr.symm, emit_ok_iff.1 ok⟩

/-- Known variables stay known when more is known. -/
theorem isBoundBy_of_subset {t : Term} {known : List Var} (h : t.isBoundBy seen = true)
    (hs : seen ⊆ known) : t.isBoundBy known = true :=
  List.all_eq_true.2 fun _ hv => List.contains_iff_mem.2 (hs (mem_of_isBoundBy h hv))

/-- **Two known sides are compared.** -/
theorem check_learns (ready : d.Ready single old seen (l.occurrences ++ r.occurrences))
    (hl : l.isBoundBy seen = true) (hr : r.isBoundBy seen = true) :
    Learns single old s seen (l.occurrences ++ r.occurrences) d
      (d.emitted (.check (l.substitute d.inlined) (r.substitute d.inlined) false))
      fun strict _ ρ => l.Fitting mode s.functions seen r strict ρ := by
  have known : ∀ v ∈ l.occurrences ++ r.occurrences, d.Knows v := by
    intro v hv
    rcases List.mem_append.1 hv with hv | hv
    · exact ready.left.knows hl v hv
    · exact ready.skip.knows hr v hv
  have sound := ready.sound.check false (ready.left.occurrences_subset hl)
    (ready.skip.occurrences_subset hr) known ready.old
  refine ⟨sound, fun v hv => (Grows.emitted d _).knows (known v hv), _,
    (Adds.check ready.sound sound).imp ready.sound sound ?_ ?_⟩
  · rintro b ρ _ hm (⟨x, y, hx, hy, hxy⟩ | ⟨_, hn⟩)
    · rw [ready.left.value?_eq hl hm] at hx
      rw [ready.skip.value?_eq hr hm, ← hxy.2 rfl] at hy
      exact ⟨mode, seen, Term.Alike.fits ⟨hx.trans hy.symm, .inl (by rw [hx]; rfl)⟩,
        fun _ => ⟨rfl, List.Subset.refl _⟩⟩
    · cases hn
  · rintro strict b ρ _ hm ⟨_, known, fits, hs⟩
    have he := fits.value?_eq
    rw [← ready.left.value?_eq hl hm, ← ready.skip.value?_eq hr hm] at he
    cases hx : (l.substitute d.inlined).value? b.get? s.functions with
    | some x => exact .inl ⟨x, x, rfl, he.symm.trans hx, by simp⟩
    | none =>
      refine .inr ⟨.inl hx, ?_⟩
      by_contra hn
      have hsub := (hs (by simpa using hn)).2
      have some := fits.isSome (isBoundBy_of_subset hl hsub) (isBoundBy_of_subset hr hsub)
      rw [← ready.left.value?_eq hl hm, hx] at some
      cases some

/-- **One side is a pattern for the other.** -/
theorem match_learns {t p : Term} {literal : Literal}
    (ready : d.Ready single old seen (p.occurrences ++ t.occurrences))
    (ht : t.isBoundBy seen = true) (hp : p.isBoundBy seen = false)
    (ok : bindPattern rule mode literal (t.substitute d.inlined) p d = .ok () d')
    {M : Bool → Env → Prop}
    (sound : ∀ {ρ}, p.Receives mode true s.functions ρ (t.value? ρ s.functions) → M true ρ)
    (complete : ∀ {strict ρ}, M strict ρ →
      p.Receives mode strict s.functions ρ (t.value? ρ s.functions)) :
    Learns single old s seen (p.occurrences ++ t.occurrences) d d' fun strict _ ρ => M strict ρ := by
  have learns := patternLearns (s := s) p ready.left hp (ready.skip.occurrences_subset ht) ok
  obtain ⟨new, adds⟩ := learns.adds
  have learns' : Learns single old s seen (p.occurrences ++ t.occurrences) d d' _ :=
    learns.congr (fun v => ?_) fun v hv => ?_
  · refine ⟨learns'.sound, learns'.known, new, adds.imp ready.sound learns.sound ?_ ?_⟩
    · intro b ρ _ hm h
      rw [ready.skip.value?_eq ht hm] at h
      exact sound h
    · intro strict b ρ _ hm h
      rw [ready.skip.value?_eq ht hm]
      exact complete h
  · rw [← List.append_assoc, List.mem_append (t := t.occurrences)]
    refine ⟨.inl, fun hv => hv.elim id fun hv => ?_⟩
    exact List.mem_append_left _ (mem_of_isBoundBy ht hv)
  · exact (List.mem_append.1 hv).imp_right fun hv => adds.knows (ready.skip.knows ht v hv)

/-- Argument lists are equated pair by pair. -/
theorem equateAll_learns {as : List Term}
    (ih : ∀ a ∈ as, ∀ {b : Term} {seen : List Var} {d d' : Draft},
      d.Ready single old seen (a.occurrences ++ b.occurrences) →
      equate rule mode a b d = .ok () d' →
      Learns single old s seen (a.occurrences ++ b.occurrences) d d' fun strict _ ρ =>
        a.Fitting mode s.functions seen b strict ρ) :
    ∀ {bs : List Term} {seen : List Var} {d d' : Draft}, as.length = bs.length →
      d.Ready single old seen (Term.occurrencesOf as ++ Term.occurrencesOf bs) →
      equateAll rule mode as bs d = .ok () d' →
      Learns single old s seen (Term.occurrencesOf as ++ Term.occurrencesOf bs) d d'
        fun strict _ ρ => ∃ form known, Term.FitsAll form s.functions ρ known as bs ∧
          (strict = true → form = mode ∧ seen ⊆ known) := by
  induction as with
  | nil =>
    intro bs seen d d' hlen ready ok
    obtain rfl := List.length_eq_zero_iff.1 hlen.symm
    unfold equateAll at ok
    obtain ⟨_, rfl⟩ := Outcome.pure_ok_iff.1 ok
    refine ⟨?_, nofun, [], (Adds.refl s old d).imp ready.sound ready.sound
      (fun _ _ _ => ⟨mode, seen, trivial, fun _ => ⟨rfl, List.Subset.refl _⟩⟩) fun _ _ _ => trivial⟩
    rw [Term.occurrencesOf, List.append_nil, List.append_nil]
    exact ready.sound
  | cons a as ihas =>
    intro bs seen d d' hlen ready ok
    cases bs with
    | nil => exact absurd hlen (by simp)
    | cons b bs =>
      rw [equateAll] at ok
      obtain ⟨⟨⟩, d₁, first, ok⟩ := Outcome.bind_ok_iff.1 ok
      have perm : ((a.occurrences ++ b.occurrences) ++
          (Term.occurrencesOf as ++ Term.occurrencesOf bs)).Perm
          (Term.occurrencesOf (a :: as) ++ Term.occurrencesOf (b :: bs)) := by
        refine List.perm_iff_count.2 fun v => ?_
        simp only [Term.occurrencesOf, List.count_append]
        omega
      have ready' := ready.perm perm.symm
      have learns := ih a (List.mem_cons_self ..) ready'.left first
      have rest := ihas (fun c hc => ih c (List.mem_cons_of_mem _ hc)) (Nat.succ.inj hlen)
        (ready'.right learns.sound) ok
      refine (learns.trans (N := fun strict _ ρ => ∃ form known,
        Term.FitsAll form s.functions ρ known (a :: as) (b :: bs) ∧
          (strict = true → form = mode ∧ seen ⊆ known)) rest ?_ ?_).perm perm
      · rintro _ _ ρ _ ⟨form, known, fits, hs⟩ ⟨form', known', fits', hs'⟩
        obtain ⟨rfl, sub⟩ := hs rfl
        obtain ⟨rfl, sub'⟩ := hs' rfl
        refine ⟨_, seen, ?_, fun _ => ⟨rfl, List.Subset.refl _⟩⟩
        rw [Term.FitsAll]
        exact ⟨fits.anti sub, Term.FitsAll.anti fits' sub'⟩
      · rintro strict _ ρ ⟨form, known, fits, hs⟩
        rw [Term.FitsAll] at fits
        refine ⟨⟨form, known, fits.1, hs⟩, fun _ _ => ⟨form, _, fits.2, fun h => ⟨(hs h).1, ?_⟩⟩⟩
        exact List.append_subset.2 ⟨fun v hv => List.mem_append_left _ ((hs h).2 hv),
          List.subset_append_right ..⟩

/-- An equation whose sides are not both unknown. -/
theorem equate_learns_of_cases (ready : d.Ready single old seen (l.occurrences ++ r.occurrences))
    (ok : equate rule mode l r d = .ok () d')
    (unknown : ∀ f as bs, l = .ctor f as → r = .ctor f bs → as.length = bs.length →
      l.isBoundBy seen = false → r.isBoundBy seen = false →
      equateAll rule mode as bs d = .ok () d' →
      Learns single old s seen (l.occurrences ++ r.occurrences) d d' fun strict _ ρ =>
        l.Fitting mode s.functions seen r strict ρ) :
    Learns single old s seen (l.occurrences ++ r.occurrences) d d' fun strict _ ρ =>
      l.Fitting mode s.functions seen r strict ρ := by
  rcases equate_cases ready ok with ⟨hl, hr, rfl⟩ | ⟨hl, hr, _, ok⟩ | ⟨hl, hr, _, ok⟩ |
    ⟨hl, hr, f, as, bs, hf, hg, hlen, ok⟩
  · exact check_learns ready hl hr
  · refine match_learns (M := l.Fitting mode s.functions seen r) ready hr hl ok ?_ ?_
    · exact fun h => ⟨mode, seen, (h.alike hl).fits, fun _ => ⟨rfl, List.Subset.refl _⟩⟩
    · rintro strict ρ ⟨form, known, fits, hs⟩
      refine ⟨fits.value?_eq, fun h => ?_⟩
      obtain ⟨rfl, sub⟩ := hs h
      exact (fits.receives_left (isBoundBy_of_subset hr sub)).2 rfl
  · have swap : (r.occurrences ++ l.occurrences).Perm (l.occurrences ++ r.occurrences) :=
      List.perm_append_comm
    have learns := match_learns (s := s) (M := l.Fitting mode s.functions seen r)
      (ready.perm swap.symm) hl hr ok
      (fun h => ⟨mode, seen, (h.alike hr).symm.fits, fun _ => ⟨rfl, List.Subset.refl _⟩⟩) (by
        rintro strict ρ ⟨form, known, fits, hs⟩
        refine ⟨fits.value?_eq.symm, fun h => ?_⟩
        obtain ⟨rfl, sub⟩ := hs h
        exact (fits.receives_right (isBoundBy_of_subset hl sub)).2 rfl)
    exact learns.perm swap
  · exact unknown f as bs hf hg hlen hl hr ok

/-- **An equation says that its sides fit.** -/
theorem equate_learns (l : Term) : ∀ {r : Term} {seen : List Var} {d d' : Draft},
    d.Ready single old seen (l.occurrences ++ r.occurrences) →
    equate rule mode l r d = .ok () d' →
    Learns single old s seen (l.occurrences ++ r.occurrences) d d' fun strict _ ρ =>
      l.Fitting mode s.functions seen r strict ρ := by
  induction l with
  | ctor f as ih =>
    intro r seen d d' ready ok
    refine equate_learns_of_cases ready ok ?_
    rintro _ _ bs ⟨⟩ rfl hlen hl hr ok
    have learns := equateAll_learns ih hlen ready ok
    obtain ⟨new, adds⟩ := learns.adds
    refine ⟨learns.sound, learns.known, new, adds.imp ready.sound learns.sound ?_ ?_⟩
    · rintro b ρ _ _ ⟨form, known, fits, hs⟩
      obtain ⟨rfl, sub⟩ := hs rfl
      exact ⟨_, seen, Term.fits_ctor_iff.2 (.inr ⟨rfl, hl, hr, fits.anti sub⟩),
        fun _ => ⟨rfl, List.Subset.refl _⟩⟩
    · rintro strict b ρ _ _ ⟨form, known, fits, hs⟩
      exact ⟨form, known, fits.args, hs⟩
  | var | lit | call =>
    intro r seen d d' ready ok
    refine equate_learns_of_cases ready ok ?_
    rintro _ _ _ ⟨⟩

end Compile

end Datalog
