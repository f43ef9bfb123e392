import Datalog.Meaning.Refusal
import Datalog.Proofs.Compile.Atom

/-!
# Proofs/Compile/Search — compiling an atom

The arguments of an atom are arranged one by one, and the goal is sound to emit for any
arrangement.  What the goal and the equations owed add to a draft comes to what the atom says
(`Compile.search_reads`).
-/

namespace Datalog

namespace Draft

variable {single : Var → Prop} {old : Nat} {s : Scene} {seen vs : List Var} {d d' : Draft}

/-- **From `d` to `d'` compilation reads the variables**; single ones may be passed over. -/
structure Reads (single : Var → Prop) (old : Nat) (s : Scene) (seen vs : List Var) (d d' : Draft)
    (M : Bool → Bindings → Env → Prop) : Prop where
  sound : d'.Sound single old (seen ++ vs)
  adds : ∃ new, Adds s old d d' new M

theorem Learns.reads {M : Bool → Bindings → Env → Prop}
    (h : Learns single old s seen vs d d' M) : Reads single old s seen vs d d' M :=
  ⟨h.sound, h.adds⟩

end Draft

namespace Compile

open Draft

variable {old : Nat} {s : Scene} {rule : Rule} {mode : Unification} {seen met : List Var}
  {d d' : Draft}

/-- A variable that the rule mentions once. -/
abbrev Single (rule : Rule) (v : Var) : Prop := rule.isSingleton v = true

/-- What is inlined does not turn an unseen term into a variable, or the other way round. -/
theorem asVar?_substitute {single : Var → Prop} {t : Term}
    (ready : d.Ready single old seen t.occurrences) (ht : t.isBoundBy seen = false) :
    (t.substitute d.inlined).asVar? = t.asVar? := by
  cases t with
  | var v =>
    have hv : v ∉ seen := by simpa [Term.isBoundBy, Term.occurrences] using ht
    have ho := ready.old v (List.mem_singleton.2 rfl)
    rw [Term.substitute, (ready.sound.notMem_bound hv ho).2, Option.getD_none]
  | lit | ctor | call => rfl

/-- **The three things an argument can become.** -/
theorem argument_cases {single : Var → Prop} {t : Term} {arg : Arg} {met' : List Var}
    {owed : List (Var × Term)} (ready : d.Ready single old seen t.occurrences)
    (ok : argument rule met t d = .ok (arg, met', owed) d') :
    t.isBoundBy seen = true ∧ arg = .bound (t.substitute d.inlined) ∧ met' = met ∧ owed = [] ∧
      d' = d ∨
    (∃ v, t = .var v ∧ v ∉ seen ∧ v ∉ met ∧
      arg = (if rule.isSingleton v then .ignored v else .free v) ∧ met' = v :: met ∧ owed = [] ∧
      d' = d) ∨
    t.isBoundBy seen = false ∧ (∀ v, t = .var v → v ∈ met) ∧ arg = .free (.fresh d.next) ∧
      met' = met ∧ owed = [(.fresh d.next, t)] ∧ d' = { d with next := d.next + 1 } := by
  unfold argument at ok
  obtain ⟨_, _, ht, ok⟩ := Outcome.bind_ok_iff.1 ok
  obtain ⟨rfl, rfl⟩ := current_ok_iff.1 ht
  obtain ⟨_, _, hb, ok⟩ := Outcome.bind_ok_iff.1 ok
  obtain ⟨rfl, rfl⟩ := isBound_ok_iff.1 hb
  rw [ready.isBound_iff] at ok
  have invented (hv : ∀ v, t = .var v → v ∈ met)
      (ok : (invent >>= fun y => pure (Arg.free y, met, [(y, t)])) d =
        EStateM.Result.ok (arg, met', owed) d') : (∀ v, t = .var v → v ∈ met) ∧
      arg = .free (.fresh d.next) ∧ met' = met ∧ owed = [(.fresh d.next, t)] ∧
      d' = { d with next := d.next + 1 } := by
    obtain ⟨y, _, hy, ok⟩ := Outcome.bind_ok_iff.1 ok
    obtain ⟨rfl, rfl⟩ := invent_ok_iff.1 hy
    obtain ⟨h, rfl⟩ := Outcome.pure_ok_iff.1 ok
    cases h
    exact ⟨hv, rfl, rfl, rfl, rfl⟩
  split at ok
  · next hseen =>
    obtain ⟨h, rfl⟩ := Outcome.pure_ok_iff.1 ok
    cases h
    exact .inl ⟨hseen, rfl, rfl, rfl, rfl⟩
  · next hseen =>
    have hseen : t.isBoundBy seen = false := by simpa using hseen
    rw [asVar?_substitute ready hseen] at ok
    dsimp only at ok
    cases t with
    | var v =>
      dsimp only [Term.asVar?] at ok
      split at ok
      · next hm =>
        obtain ⟨h, rfl⟩ := Outcome.pure_ok_iff.1 ok
        cases h
        refine .inr (.inl ⟨v, rfl, ?_, hm, rfl, rfl, rfl, rfl⟩)
        simpa [Term.isBoundBy, Term.occurrences] using hseen
      · next hm =>
        refine .inr (.inr ⟨hseen, invented (fun w hw => ?_) ok⟩)
        cases hw
        exact Classical.not_not.1 hm
    | lit | ctor | call => exact .inr (.inr ⟨hseen, invented (fun v hv => by cases hv) ok⟩)

/-- An argument that has been seen keeps its place. -/
theorem places_of_isBoundBy {t : Term} (hseen : t.isBoundBy seen = true) (met : List Var)
    (ts : List Term) :
    Term.places seen met (t :: ts) = (Term.places seen met ts).map (t :: ·) id := by
  rw [Term.places, if_pos hseen]

/-- A variable that the atom mentions for the first time keeps its place. -/
theorem places_of_new {v : Var} (hseen : v ∉ seen) {met : List Var} (hmet : v ∉ met)
    (ts : List Term) : Term.places seen met (.var v :: ts) =
      (Term.places seen (v :: met) ts).map (.var v :: ·) id := by
  have unseen : (Term.var v).isBoundBy seen = false := by
    simpa [Term.isBoundBy, Term.occurrences] using hseen
  rw [Term.places, unseen, if_neg Bool.false_ne_true, Term.asVar?]
  exact if_neg hmet

/-- Any other argument gives its place up. -/
theorem places_of_moved {t : Term} (hseen : t.isBoundBy seen = false) {met : List Var}
    (hmet : ∀ v, t = .var v → v ∈ met) (ts : List Term) :
    Term.places seen met (t :: ts) = (Term.places seen met ts).map id (t :: ·) := by
  rw [Term.places, hseen, if_neg Bool.false_ne_true]
  cases t with
  | var v => exact if_pos (hmet v rfl)
  | lit | ctor | call => rfl

/-- **The arguments of an atom are arranged**, and keep their places or give them up. -/
theorem arguments_arranged {ts : List Term} : ∀ {met : List Var} {args : List Arg}
    {owed : List (Var × Term)} {d d' : Draft},
    d.Ready (Single rule) old seen (Term.occurrencesOf ts) →
    Once (Single rule) (met ++ Term.occurrencesOf ts) →
    arguments rule met ts d = .ok (args, owed) d' →
    ∃ direct, Arranged (Single rule) seen d.inlined met d.next ts args direct owed ∧
      Term.places seen met ts = (direct, owed.map Prod.snd) ∧
      d' = { d with next := d.next + owed.length } := by
  induction ts with
  | nil =>
    intro met args owed d d' _ _ ok
    rw [arguments] at ok
    obtain ⟨h, rfl⟩ := Outcome.pure_ok_iff.1 ok
    cases h
    exact ⟨[], .nil, rfl, rfl⟩
  | cons t ts ih =>
    intro met args owed d d' ready once ok
    rw [arguments] at ok
    obtain ⟨⟨arg, met', owes⟩, d₁, first, ok⟩ := Outcome.bind_ok_iff.1 ok
    obtain ⟨⟨args', rest⟩, d₂, later, ok⟩ := Outcome.bind_ok_iff.1 ok
    obtain ⟨h, rfl⟩ := Outcome.pure_ok_iff.1 ok
    cases h
    have once' : Once (Single rule) (met ++ Term.occurrencesOf ts) := once.of_count_le fun v => by
      rw [Term.occurrencesOf, List.count_append, List.count_append, List.count_append]
      omega
    have notSingle {v : Var} (hv : v ∈ seen ∨ v ∈ met) (ht : t = .var v) : ¬Single rule v := by
      subst ht
      rcases hv with hv | hv
      · exact ready.left.once.not_single hv (List.mem_singleton.2 rfl)
      · exact once.not_single hv (List.mem_append_left _ (List.mem_singleton.2 rfl))
    rcases argument_cases ready.left first with ⟨hseen, rfl, rfl, rfl, rfl⟩ |
      ⟨v, rfl, hseen, hmet, rfl, rfl, rfl, rfl⟩ | ⟨hseen, hv, rfl, rfl, rfl, rfl⟩
    · obtain ⟨direct, arranged, places, rfl⟩ := ih ready.skip once' later
      refine ⟨t :: direct, .bound hseen (fun v e => notSingle (.inl ?_) e) arranged, ?_, rfl⟩
      · subst e
        exact mem_of_isBoundBy hseen (List.mem_singleton.2 rfl)
      · rw [places_of_isBoundBy hseen, places]
        rfl
    · have perm : (met ++ (v :: Term.occurrencesOf ts)).Perm
          (v :: met ++ Term.occurrencesOf ts) := List.perm_middle
      obtain ⟨direct, arranged, places, rfl⟩ := ih ready.skip
        (once.of_count_le fun w => Nat.le_of_eq (perm.symm.count_eq w)) later
      refine ⟨.var v :: direct, ?_, ?_, rfl⟩
      · split
        · next hs => exact .ignored hseen hs arranged
        · next hs => exact .free hseen hmet hs arranged
      · rw [places_of_new hseen hmet, places]
        rfl
    · obtain ⟨direct, arranged, places, rfl⟩ :=
        ih (ready.skip.withNext (Nat.le_succ _)) once' later
      refine ⟨direct, .invented hseen (fun v e => notSingle (.inr (hv v e)) e) arranged, ?_, ?_⟩
      · rw [places_of_moved hseen hv, places]
        rfl
      · have number : d.next.succ + rest.length = d.next + (rest.length + 1) := by omega
        rw [List.cons_append, List.nil_append, List.length_cons, ← number]

/-- What a search that is not refused has done. -/
theorem search_ok {delta : Bool} {a : Atom} (ok : search rule mode delta a d = .ok () d') :
    a.HasArity ∧ ∃ args owed d₁, arguments rule [] a.args d = .ok (args, owed) d₁ ∧
      (a.negated && args.any Arg.isFree) = false ∧
      equateBinders rule mode (owed.map Prod.fst) (owed.map Prod.snd)
        (d₁.emitted (.lookup { relation := a.relation, args, negated := a.negated, delta })) =
        .ok () d' := by
  unfold search at ok
  obtain ⟨_, _, ht, ok⟩ := Outcome.bind_ok_iff.1 ok
  obtain ⟨_, rfl⟩ := mapM_current_ok_iff.1 ht
  dsimp only at ok
  split at ok
  · next arity =>
    refine ⟨arity, ?_⟩
    split at ok
    · exact (Outcome.throw_bind_ok ok).elim
    · obtain ⟨⟨args, owed⟩, d₁, hargs, ok⟩ := Outcome.bind_ok_iff.1 ok
      dsimp only at ok
      split at ok
      · exact (Outcome.throw_bind_ok ok).elim
      · next hneg =>
        obtain ⟨⟨⟩, _, hemit, ok⟩ := Outcome.bind_ok_iff.1 ok
        obtain rfl := emit_ok_iff.1 hemit
        exact ⟨args, owed, d₁, hargs, by simpa using hneg, ok⟩
  · exact (Outcome.throw_bind_ok ok).elim

/-- **A goal may be emitted** however its arguments are arranged. -/
theorem goal_takes {single : Var → Prop} {ts direct : List Term} {g : Goal}
    {owed : List (Var × Term)}
    (ready : d.Ready single old seen (Term.occurrencesOf ts))
    (arranged : Arranged single seen d.inlined [] d.next ts g.args direct owed)
    (negated : g.negated = true → g.args.flatMap Arg.writes = []) :
    ({ d with next := d.next + owed.length } : Draft).Takes single old (.lookup g)
      (seen ++ Term.occurrencesOf direct) := by
  have old_of {w : Var} (hw : w ∈ Term.occurrencesOf direct) : w.number < old :=
    ready.old w (arranged.perm.mem_iff.2 (List.mem_append_left _ hw))
  have writes : Step.writes (.lookup g) = g.args.flatMap Arg.writes := by
    rw [Step.writes]
    split
    · next h => exact (negated h).symm
    · rfl
  have reads : Step.reads (.lookup g) ⊆ d.written := fun w hw => by
    obtain ⟨t, ht, hb, hw⟩ := arranged.reads hw
    exact (ready.of_mem ht).occurrences_subset hb hw
  have fresh {w : Var} (hw : w ∈ g.args.flatMap Arg.writes) :
      w ∉ d.bound ∧ d.inlined.get? w = none := by
    rcases arranged.writes hw with ⟨hd, hs, _⟩ | ⟨hn, _⟩
    · exact ready.sound.notMem_bound hs (old_of hd)
    · exact (ready.sound.notMem_of_next_le hn).2
  refine ⟨reads, fun w hw => (fresh (writes ▸ hw)).1, fun w hw => (fresh (writes ▸ hw)).2, ?_, ?_,
    ?_, ?_, ?_⟩
  · rw [writes]
    exact arranged.nodup_writes fun v hv => Nat.lt_of_lt_of_le (old_of hv) ready.sound.old_le
  · intro w hw _
    rw [writes]
    rcases arranged.vars (List.mem_eraseDups.1 hw) with hw | hw | ⟨hd, hs, hsingle⟩
    · exact .inl (reads hw)
    · exact .inr (.inl hw)
    · exact .inr (.inr ⟨List.mem_append_right _ hd, hsingle,
        (ready.sound.notMem_bound hs (old_of hd)).2⟩)
  · intro w hw
    rw [writes]
    rcases List.mem_append.1 hw with hw | hw
    · exact .inr (ready.sound.seen_cases w hw)
    · rcases arranged.direct_cases hw with ⟨t, ht, hb, hw⟩ | hw | hsingle
      · exact .inr (.inl ((ready.of_mem ht).knows hb w hw))
      · exact .inl hw
      · exact .inr (.inr hsingle)
  · intro w hw
    rcases arranged.writes (writes ▸ hw) with ⟨hd, _⟩ | ⟨hlow, hhigh⟩
    · exact .inl (List.mem_append_right _ hd)
    · exact .inr ⟨Nat.le_trans ready.sound.old_le hlow, hhigh⟩
  · intro w hw
    rcases List.mem_append.1 hw with hw | hw
    · exact ready.sound.seen_old w hw
    · exact old_of hw

/-- **A goal that binds nothing** says that no tuple has the atom's values. -/
theorem absence_reads {a : Atom} {g : Goal} {direct : List Term}
    (ready : d.Ready (Single rule) old seen (Term.occurrencesOf a.args))
    (arranged : Arranged (Single rule) seen d.inlined [] d.next a.args g.args direct [])
    (suits : s.Suits g) (hr : g.relation = a.relation) (hn : g.negated = true)
    (writes : g.args.flatMap Arg.writes = []) (ha : a.negated = true)
    (ok : equateBinders rule mode [] [] (({ d with next := d.next } : Draft).emitted (.lookup g)) =
      .ok () d') :
    Reads (Single rule) old s seen (Term.occurrencesOf a.args) d d' fun _ _ ρ =>
      a.Fits (Single rule) s g.delta ρ := by
  unfold equateBinders at ok
  obtain ⟨_, rfl⟩ := Outcome.pure_ok_iff.1 ok
  have perm := arranged.perm
  rw [List.map_nil, Term.occurrencesOf, List.append_nil] at perm
  have sound : (d.emitted (.lookup g)).Sound (Single rule) old
      (seen ++ Term.occurrencesOf a.args) :=
    (ready.sound.emit (fun v hv => List.mem_append_left _ hv)
      (goal_takes ready arranged fun _ => writes)).congr
      fun v => (perm.symm.append_left seen).mem_iff
  have values {b : Bindings} {ρ : Env} (hm : d.Matches s.functions old b ρ) (t : Term)
      (ht : t ∈ a.args) (hb : t.isBoundBy seen = true) :
      (t.substitute d.inlined).value? b.get? s.functions = t.value? ρ s.functions :=
    (ready.of_mem ht).value?_eq hb hm
  -- nothing is bound, so every tuple holds what the goal binds
  have passes {b : Bindings} {ρ : Env} (hm : d.Matches s.functions old b ρ) {tuple : Tuple}
      (hlen : tuple.length = g.args.length) :
      a.Matches (Single rule) s.functions ρ tuple ↔
        List.Forall₂ (Arg.Meets b.get? s.functions) g.args tuple := by
    have holds : List.Forall₂ (Arg.Holds b) g.args tuple := by
      refine List.forall₂_iff_zip.2 ⟨hlen.symm, fun {arg x} hz v hv => ?_⟩
      have : v ∈ g.args.flatMap Arg.writes := List.mem_flatMap.2 ⟨arg, (List.of_mem_zip hz).1, hv⟩
      rw [writes] at this
      cases this
    rw [Atom.Matches, arranged.passes_iff mode true ready.sound.old_le
      ready.old (values hm) holds, writes]
    exact ⟨fun h => h.1, fun h => ⟨h, fun _ hv => absurd hv List.not_mem_nil, .nil⟩⟩
  refine ⟨sound, _, .emit ready.sound sound (fun _ e => by cases e; exact suits) ?_ ?_⟩
  · intro b b' ρ hb leads hm _
    obtain ⟨key, hkey, none, rfl⟩ := (Step.leads_absent_iff hn).1 leads
    rw [Atom.Fits, if_pos ha]
    refine ⟨fun t ht => ?_, fun tuple ht hmatches => ?_⟩
    · exact (arranged.exists_passes_iff writes (values hm)).2
        (Goal.exists_key_iff.1 ⟨key, hkey⟩) t ht
    · have hlen := suits.absent tuple (hr ▸ ht)
      have hagree := (Goal.agrees_iff hkey hlen).2 ((passes hm hlen).1 hmatches)
      rw [none tuple (hr ▸ ht)] at hagree
      cases hagree
  · intro strict b ρ hb hm h
    rw [Atom.Fits, if_pos ha] at h
    obtain ⟨hvalues, hnone⟩ := h
    obtain ⟨key, hkey⟩ :=
      Goal.exists_key_iff.2 ((arranged.exists_passes_iff writes (values hm)).1 hvalues)
    refine .inl ⟨b, .absent hn hkey fun tuple ht => ?_, ?_⟩
    · have hlen := suits.absent tuple ht
      refine Bool.eq_false_iff.2 fun hagree => hnone tuple (hr ▸ ht) ?_
      exact (passes hm hlen).2 ((Goal.agrees_iff hkey hlen).1 hagree)
    · rw [Step.writes, if_pos hn]
      exact fun _ hv => absurd hv List.not_mem_nil

/-- **A goal stands for an atom**: it has the atom's arguments, some of them as equations owed, and
asks for a tuple. -/
structure Stands (rule : Rule) (old : Nat) (s : Scene) (seen : List Var) (d : Draft) (a : Atom)
    (g : Goal) (direct : List Term) (owed : List (Var × Term)) : Prop where
  ready : d.Ready (Single rule) old seen (Term.occurrencesOf a.args)
  arranged : Arranged (Single rule) seen d.inlined [] d.next a.args g.args direct owed
  suits : s.Suits g
  relation : g.relation = a.relation
  positive : g.negated = false
  asks : a.negated = false

/-- The draft after a goal that owes so many equations. -/
abbrev looked (d : Draft) (g : Goal) (n : Nat) : Draft :=
  ({ d with next := d.next + n } : Draft).emitted (.lookup g)

namespace Stands

variable {a : Atom} {g : Goal} {direct : List Term} {owed : List (Var × Term)} {b b' : Bindings}
  {ρ : Env} {tuple : Tuple}

theorem writes (h : Stands rule old s seen d a g direct owed) :
    Step.writes (.lookup g) = g.args.flatMap Arg.writes := by
  rw [Step.writes, h.positive, if_neg Bool.false_ne_true]

theorem nodup (h : Stands rule old s seen d a g direct owed) :
    (g.args.flatMap Arg.writes).Nodup := h.arranged.nodup_writes fun v hv =>
  Nat.lt_of_lt_of_le (h.ready.old v (h.arranged.perm.mem_iff.2 (List.mem_append_left _ hv)))
    h.ready.sound.old_le

theorem ready_next (h : Stands rule old s seen d a g direct owed) :
    ({ d with next := d.next + owed.length } : Draft).Ready (Single rule) old seen
      (Term.occurrencesOf direct ++ Term.occurrencesOf (owed.map Prod.snd)) :=
  (h.ready.perm h.arranged.perm).withNext (Nat.le_add_right d.next owed.length)

theorem sound (h : Stands rule old s seen d a g direct owed) :
    (looked d g owed.length).Sound (Single rule) old (seen ++ Term.occurrencesOf direct) :=
  h.ready_next.sound.emit (fun v hv => List.mem_append_left _ hv)
    (goal_takes h.ready h.arranged fun negated => by rw [h.positive] at negated; cases negated)

theorem grows (d : Draft) (g : Goal) (n : Nat) : Grows d (looked d g n) [.lookup g] :=
  (Grows.withNext (Nat.le_add_right d.next n)).trans (Grows.emitted _ _)

theorem defined (h : Stands rule old s seen d a g direct owed) (hb : b.Defined d.written)
    (leads : Step.Leads s (.lookup g) b b') : b'.Defined (looked d g owed.length).written := by
  have grows := Grows.emitted ({ d with next := d.next + owed.length } : Draft) (.lookup g)
  have suited : Step.Suited s [.lookup g] := fun g' hg' => by
    cases List.mem_singleton.1 hg'
    exact h.suits
  rw [grows.written]
  exact (Step.path_singleton_iff.2 leads).defined (grows.inOrder h.sound) suited.long hb

/-- **A tuple has the values of the atom** if the goal finds it and what is owed receives it. -/
theorem passes (h : Stands rule old s seen d a g direct owed) (mode : Unification)
    (hm : d.Matches s.functions old b ρ) (hlen : tuple.length = g.args.length) :
    a.Matches (Single rule) s.functions ρ tuple ↔
      List.Forall₂ (Arg.Meets b.get? s.functions) g.args tuple ∧
      (∀ v ∈ g.args.flatMap Arg.writes, v.number < old → (g.bind tuple b).get? v = ρ v) ∧
      AllReceive mode s.functions (owed.map Prod.fst) (owed.map Prod.snd) true
        (g.bind tuple b) ρ :=
  h.arranged.passes_iff mode true h.ready.sound.old_le h.ready.old
    (fun _ ht hb => (h.ready.of_mem ht).value?_eq hb hm) (Goal.forall₂_holds hlen h.nodup)

/-- **What a path finds** has the atom's values, if it goes on to receive what is owed. -/
theorem fits_of_leads (h : Stands rule old s seen d a g direct owed)
    (leads : Step.Leads s (.lookup g) b b')
    (hm : (looked d g owed.length).Matches s.functions old b' ρ)
    (received : AllReceive mode s.functions (owed.map Prod.fst) (owed.map Prod.snd) true b' ρ) :
    a.Fits (Single rule) s g.delta ρ := by
  have before := hm.of_grows (Grows.emitted _ _) h.ready_next.sound h.sound
    (Step.path_singleton_iff.2 leads)
  obtain ⟨key, hkey, tuple, ⟨offered, agrees⟩, rfl⟩ :=
    (Step.leads_found_iff h.positive).1 leads
  have hlen := h.suits.offered tuple offered
  rw [Atom.Fits, if_neg (by simp [h.asks])]
  refine ⟨tuple, h.relation ▸ offered, (h.passes mode before hlen).2
    ⟨(Goal.agrees_iff hkey hlen).1 agrees, fun v hv ho => ?_, received⟩⟩
  exact hm.of_emitted h.sound v (h.writes ▸ hv) ho

/-- **What has the atom's values** is found, and goes on to receive what is owed. -/
theorem leads_of_fits (h : Stands rule old s seen d a g direct owed) (mode : Unification)
    (hm : d.Matches s.functions old b ρ) (fits : a.Fits (Single rule) s g.delta ρ) :
    ∃ b', Step.Leads s (.lookup g) b b' ∧
      (looked d g owed.length).Matches s.functions old b' ρ ∧
      AllReceive mode s.functions (owed.map Prod.fst) (owed.map Prod.snd) true b' ρ := by
  rw [Atom.Fits, if_neg (by simp [h.asks])] at fits
  obtain ⟨tuple, gives, hmatches⟩ := fits
  have offered : s.Offers g tuple := by
    rw [Scene.offers_iff, h.relation]
    exact gives
  have hlen := h.suits.offered tuple offered
  obtain ⟨meets, free, received⟩ := (h.passes mode hm hlen).1 hmatches
  obtain ⟨key, hkey⟩ := Goal.exists_key_of_meets meets
  have leads : Step.Leads s (.lookup g) b (g.bind tuple b) :=
    .found h.positive hkey offered ((Goal.agrees_iff hkey hlen).2 meets)
  have hm' : ({ d with next := d.next + owed.length } : Draft).Matches s.functions old b ρ := hm
  exact ⟨_, leads, hm'.emitted h.ready_next.sound h.sound leads
    fun v hv => free v (h.writes ▸ hv), received⟩

end Stands

/-- **A goal and the equations owed** say that some tuple has the atom's values. -/
theorem presence_reads {a : Atom} {g : Goal} {direct : List Term} {owed : List (Var × Term)}
    (stands : Stands rule old s seen d a g direct owed)
    (ok : equateBinders rule mode (owed.map Prod.fst) (owed.map Prod.snd)
      (looked d g owed.length) = .ok () d') :
    Reads (Single rule) old s seen (Term.occurrencesOf a.args) d d' fun _ _ ρ =>
      a.Fits (Single rule) s g.delta ρ := by
  have written : owed.map Prod.fst ⊆ (looked d g owed.length).written := by
    rw [written_emitted, stands.writes]
    exact fun v hv => List.mem_append_right _ (stands.arranged.owed_subset hv)
  have owing := equateBinders_learns (s := s) (fun t _ => patternLearns t)
    (by rw [List.length_map, List.length_map]) (stands.ready_next.right stands.sound) written ok
  obtain ⟨new, adds⟩ := owing.adds
  refine ⟨owing.sound.congr fun v => ?_, [.lookup g] ++ new,
    (Stands.grows d g owed.length).trans adds.toGrows, fun g' hg' => ?_, ?_, ?_⟩
  · rw [List.append_assoc]
    exact (stands.arranged.perm.symm.append_left seen).mem_iff
  · rcases List.mem_append.1 hg' with hg' | hg'
    · cases List.mem_singleton.1 hg'
      exact stands.suits
    · exact adds.suited g' hg'
  · intro b b'' ρ hb path hm
    obtain ⟨b', path, path'⟩ := Step.path_append_iff.1 path
    have leads := Step.path_singleton_iff.1 path
    exact stands.fits_of_leads leads (hm.of_grows adds.toGrows stands.sound owing.sound path')
      (adds.sound (stands.defined hb leads) path' hm)
  · intro strict b ρ hb hm fits
    obtain ⟨b', leads, hm', received⟩ := stands.leads_of_fits mode hm fits
    rcases adds.complete (stands.defined hb leads) hm' received with ⟨b'', path, hm''⟩ | ⟨_, h⟩
    · exact .inl ⟨b'', Step.path_append_iff.2 ⟨_, Step.path_singleton_iff.2 leads, path⟩, hm''⟩
    · cases h

/-- **An atom says that some tuple has its values**, or that none has. -/
theorem search_reads {delta : Bool} {a : Atom}
    (ready : d.Ready (Single rule) old seen a.occurrences)
    (measures : s.Measures delta a.relation) (ok : search rule mode delta a d = .ok () d') :
    Reads (Single rule) old s seen a.occurrences d d' fun _ _ ρ =>
      a.Fits (Single rule) s delta ρ := by
  obtain ⟨arity, args, owed, _, hargs, hneg, ok⟩ := search_ok ok
  have occurrences : a.occurrences = Term.occurrencesOf a.args :=
    (Term.occurrencesOf_eq_flatMap _).symm
  rw [occurrences] at ready ⊢
  obtain ⟨direct, arranged, _, rfl⟩ := arguments_arranged ready
    (ready.once.of_count_le fun v => by
      rw [List.nil_append, List.count_append]
      omega) hargs
  obtain ⟨g, hr, rfl, hn, rfl, found⟩ : ∃ g : Goal, g.relation = a.relation ∧ g.args = args ∧
      g.negated = a.negated ∧ g.delta = delta ∧ equateBinders rule mode (owed.map Prod.fst)
        (owed.map Prod.snd) (({ d with next := d.next + owed.length } : Draft).emitted (.lookup g)) =
        .ok () d' := ⟨_, rfl, rfl, rfl, rfl, ok⟩
  have hlen : a.relation.arity = g.args.length := arity.symm.trans arranged.length_eq.symm
  have suits : s.Suits g := by
    refine ⟨fun t ht => ?_, fun t ht => ?_⟩
    · rw [Scene.offers_iff, hr] at ht
      exact (measures.gives t ht).trans hlen
    · rw [hr] at ht
      exact (measures.absent t ht).trans hlen
  cases ha : a.negated with
  | true =>
    rw [ha, Bool.true_and] at hneg
    obtain ⟨rfl, writes⟩ := arranged.owed_eq_nil hneg
    exact absence_reads ready arranged suits hr (hn.trans ha) writes ha found
  | false =>
    exact presence_reads ⟨ready, arranged, suits, hr, hn.trans ha, ha⟩ found

end Compile

end Datalog
