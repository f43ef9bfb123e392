import Datalog.Proofs.Evaluation.Conclude
import Datalog.Proofs.Evaluation.Position
import Datalog.Proofs.Stratum

/-!
# Proofs/Evaluation/Due — what tasks are due to derive

A task is sound (`Task.Sound`) if what it derives belongs to the facts in the end, and a tuple is
due in it (`Task.Due`) if the rest of its body leads there from the facts as they are.  Everything
that the rules admit over the facts is accounted for (`Covered`): it is stored, or due in a task
that waits, or a new tuple that has not set off its clauses yet is going to make it due.
-/

namespace Datalog

variable {cx : Context} {rules : List Rule} {start F G H : Facts} {task t : Task}

/-! ## Scenes -/

/-- What the task is run against if the facts are `F`. -/
def Task.scene (cx : Context) (start F : Facts) (t : Task) : Scene where
  functions := cx.functions
  facts := F
  absent := start
  seed := t.seed.map fun tuples tuple => tuple ∈ tuples

theorem Task.scene_within (h : F.Within G) (t : Task) :
    (t.scene cx start F).Within (t.scene cx start G) :=
  Scene.withFacts_within h (t.scene cx start F)

/-- A larger seed offers no less. -/
theorem Scene.onSeed_within {fns : Functions} {P Q : Tuple → Prop} (h : F.Within G)
    (hseed : ∀ x, P x → Q x) : (Scene.onSeed fns start F P).Within (.onSeed fns start G Q) := by
  refine ⟨rfl, rfl, fun g x hx => ?_⟩
  rcases g with ⟨r, args, negated, delta⟩
  cases delta with
  | true => exact hseed x hx
  | false => exact h r x hx

/-- **The goal finds the tuple**: it is offered and agrees with the key. -/
def Scene.Finds (s : Scene) (g : Goal) (b : Bindings) (tuple : Tuple) : Prop :=
  ∃ key, g.key s.functions b = .ok key ∧ s.Offers g tuple ∧ key.agrees tuple = true

namespace Scene.Finds

variable {s s' : Scene} {g : Goal} {b b' : Bindings} {tuple : Tuple}

theorem mono (h : s.Within s') (found : s.Finds g b tuple) : s'.Finds g b tuple := by
  obtain ⟨key, hkey, offered, agrees⟩ := found
  exact ⟨key, h.functions ▸ hkey, h.offers _ _ offered, agrees⟩

theorem leads (found : s.Finds g b tuple) (positive : g.negated = false) :
    Step.Leads s (.lookup g) b (g.bind tuple b) := by
  obtain ⟨key, hkey, offered, agrees⟩ := found
  exact .found positive hkey offered agrees

/-- What is found depends on what the goal reads. -/
theorem transfer (found : s.Finds g b tuple) (h : Bindings.Agree (g.args.flatMap Arg.reads) b b') :
    s.Finds g b' tuple := by
  obtain ⟨key, hkey, offered, agrees⟩ := found
  exact ⟨key, Goal.key_congr h ▸ hkey, offered, agrees⟩

end Scene.Finds

/-! ## Tasks -/

namespace Task

/-- **The tuple is due in the task** if the facts are `F`. -/
def Due (cx : Context) (start F : Facts) (t : Task) (tuple : Tuple) : Prop :=
  match t.resumption with
  | none => t.clause.head.Due (t.scene cx start F) t.clause.clause.body ∅ tuple
  | some r => ∃ found ∈ r.tuples, t.clause.head.Due (t.scene cx start F) (r.rest.map Slot.step)
      (r.goal.bind found r.bindings) tuple

theorem Due.mono {tuple : Tuple} (h : F.Within G) (due : t.Due cx start F tuple) :
    t.Due cx start G tuple := by
  unfold Due at due ⊢
  cases hr : t.resumption with
  | none =>
    rw [hr] at due
    exact Head.Due.mono (t.scene_within h) due
  | some r =>
    rw [hr] at due
    obtain ⟨found, hfound, due⟩ := due
    exact ⟨found, hfound, due.mono (t.scene_within h)⟩

/-- **A path through the slots** has led to bindings that agree with these. -/
def Reached (cx : Context) (start G : Facts) (t : Task) (pre : List Slot) (b : Bindings) : Prop :=
  ∃ c, Step.Path (t.scene cx start G) (pre.map Slot.step) ∅ c ∧ Bindings.Agree (Work.before pre) c b

/-- **What a task derives is right**, if `G` are the facts in the end. -/
structure Sound (cx : Context) (start G : Facts) (t : Task) : Prop where
  has : cx.stratum.Has t.clause
  orderly : t.clause.clause.Orderly
  heads : cx.stratum.Heads t.clause.head.relation
  static : ∀ g, .lookup g ∈ t.clause.clause.body → g.negated = true →
    ¬cx.stratum.Heads g.relation
  offers : ∀ g, .lookup g ∈ t.clause.clause.body → ∀ x, (t.scene cx start G).Offers g x →
    G g.relation x
  suited : Step.Suited (t.scene cx start G) t.clause.clause.body
  derives : ∀ tuple, t.clause.clause.Derives (t.scene cx start G) tuple →
    G t.clause.head.relation tuple
  resumes : ∀ r, t.resumption = some r → ∃ pre slot, t.clause.body = pre ++ slot :: r.rest ∧
    slot.step.positiveGoal? = some r.goal ∧ t.Reached cx start G pre r.bindings ∧
      ∀ found ∈ r.tuples, (t.scene cx start G).Finds r.goal r.bindings found

/-- A scene that offers less suits as well. -/
theorem Sound.suited_of_within (h : t.Sound cx start G) (hF : F.Within G) :
    Step.Suited (t.scene cx start F) t.clause.clause.body :=
  fun g hg => ⟨fun x hx => (h.suited g hg).offered x ((t.scene_within hF).offers g x hx),
    (h.suited g hg).absent⟩

section

variable {pre rest : List Slot} {slot : Slot} {goal : Goal} {b b' c : Bindings} {tuple : Tuple}

theorem reached_nil : t.Reached cx start G [] ∅ := ⟨∅, .nil, nofun⟩

theorem Reached.of_agree (h : t.Reached cx start G pre b)
    (agree : Bindings.Agree (Work.before pre) b b') : t.Reached cx start G pre b' := by
  obtain ⟨c, path, hc⟩ := h
  exact ⟨c, path, hc.trans agree⟩

/-- **One step further.** -/
theorem Reached.snoc (h : t.Reached cx start G pre b) (sound : t.Sound cx start G)
    (body : t.clause.body = pre ++ slot :: rest)
    (leads : Step.Leads (t.scene cx start G) slot.step b c) :
    t.Reached cx start G (pre ++ [slot]) c := by
  obtain ⟨b', path, agree⟩ := h
  obtain ⟨reads, _⟩ := Work.orderly_at sound.orderly body
  obtain ⟨c', leads', agree'⟩ := leads.transfer reads
    (fun g e => sound.suited g (e ▸ Work.step_mem body)) agree.symm
  refine ⟨c', ?_, ?_⟩
  · rw [List.map_append]
    exact Step.path_append_iff.2 ⟨b', path, Step.path_singleton_iff.2 leads'⟩
  · rw [Work.before_snoc]
    exact agree'.symm

/-- **At the end of the body** the head's values belong to the facts. -/
theorem Reached.derives (h : t.Reached cx start G pre b) (sound : t.Sound cx start G)
    (body : t.clause.body = pre ++ [])
    (value : Tuple.evaluate b cx.functions t.clause.head.args = .ok tuple) :
    G t.clause.head.relation tuple := by
  obtain ⟨c, path, agree⟩ := h
  refine sound.derives tuple ⟨c, ?_, ?_⟩
  · rw [PlannedClause.clause, body, List.append_nil]
    exact path
  · rw [Work.before_eq_written body] at agree
    exact Tuple.evaluate_congr (agree.subset sound.orderly.head) ▸ value

/-- What is due on the way depends on what is bound before. -/
theorem Sound.due_transfer {slots : List Slot} (sound : t.Sound cx start G) (hF : F.Within G)
    (body : t.clause.body = pre ++ slots) (agree : Bindings.Agree (Work.before pre) b b')
    (due : t.clause.head.Due (t.scene cx start F) (slots.map Slot.step) b tuple) :
    t.clause.head.Due (t.scene cx start F) (slots.map Slot.step) b' tuple := by
  refine due.transfer (Work.inOrder_rest sound.orderly body) (fun g hg => ?_)
    (Work.head_reads sound.orderly body) agree
  refine sound.suited_of_within hF g ?_
  rw [PlannedClause.clause, body, List.map_append]
  exact List.mem_append_right _ hg

end

end Task

/-! ## The facts in the end -/

/-- **What is known of the facts in the end**: they are closed, their tuples have the right arity,
and for a relation that the stratum does not derive there is nothing new. -/
structure Context.Ends (cx : Context) (start G : Facts) : Prop where
  within : start.Within G
  closed : G.Closed cx.functions (cx.stratum.base.map PlannedClause.clause) start
  measured : G.Measured
  fixed : ∀ r t, ¬cx.stratum.Heads r → G r t → start r t

namespace Task

/-- A task that starts a clause over facts is sound if the clause is. -/
theorem sound_of_start (diff : cx.stratum.Differential cx.functions rules start)
    (ends : cx.Ends start G) (has : cx.stratum.Has t.clause) (hnone : t.resumption = none)
    (offers : ∀ g, .lookup g ∈ t.clause.clause.body → ∀ x,
      (t.scene cx start G).Offers g x → G g.relation x)
    (derives : ∀ tuple, t.clause.clause.Derives (t.scene cx start G) tuple →
      G t.clause.head.relation tuple) : t.Sound cx start G where
  has := has
  orderly := diff.orderly _ has
  heads := diff.heads _ has
  static := diff.static _ has
  offers := offers
  suited g hg := by
    have arity := (diff.orderly _ has).goals g hg
    refine ⟨fun x hx => ?_, fun x hx => ?_⟩
    · rw [ends.measured _ x (offers g hg x hx), arity]
    · rw [ends.measured _ x (ends.within _ x hx), arity]
  derives := derives
  resumes r hr := by
    rw [hnone] at hr
    cases hr

/-- **A base task is sound.** -/
theorem sound_of_base (diff : cx.stratum.Differential cx.functions rules start)
    (ends : cx.Ends start G) {c : PlannedClause} (hc : c ∈ cx.stratum.base) :
    Sound cx start G { clause := c, seed := none, generation := 0 } := by
  refine sound_of_start diff ends (.inl hc) rfl (fun g hg x hx => ?_) fun tuple hd => ?_
  · cases hdelta : g.delta <;> rw [Scene.Offers, hdelta] at hx <;> exact hx
  · exact ends.closed _ (List.mem_map_of_mem hc) tuple hd

/-- **A task that known tuples set off is sound.** -/
theorem sound_of_fired (diff : cx.stratum.Differential cx.functions rules start)
    (ends : cx.Ends start G) {r : Relation} {v : PlannedClause} (hv : v ∈ cx.stratum.firedBy r)
    {seed : List Tuple} (hseed : ∀ x ∈ seed, G r x) (generation : Nat) :
    Sound cx start G { clause := v, seed := some seed, generation } := by
  refine sound_of_start diff ends (.inr ⟨r, hv⟩) rfl (fun g hg x hx => ?_) fun tuple hd => ?_
  · cases hdelta : g.delta with
    | true =>
      rw [Scene.Offers, hdelta] at hx
      rw [diff.marked r v hv g hg hdelta]
      exact hseed x hx
    | false =>
      rw [Scene.Offers, hdelta] at hx
      exact hx
  · obtain ⟨c, hc, hr, hd⟩ := diff.sound r v hv G (· ∈ seed) tuple ends.measured hseed hd
    have held : G c.head.relation tuple := ends.closed _ (List.mem_map_of_mem hc) tuple hd
    exact hr ▸ held

end Task

/-! ## Coverage -/

/-- **Why a tuple that the rules admit need not be derived now**: it is stored, it is owed, it is
due in a task that waits, or it will be due once a pending tuple has set off its clauses. -/
inductive Accounted (cx : Context) (start F : Facts) (owed : Facts) (tasks : List Task)
    (pending : Facts) (r : Relation) (tuple : Tuple) : Prop
  | stored (h : F r tuple)
  | owed (h : owed r tuple)
  | waits (t : Task) (ht : t ∈ tasks) (hr : t.clause.head.relation = r)
      (due : t.Due cx start F tuple)
  | pending (r' : Relation) (x : Tuple) (h : pending r' x) (v : PlannedClause)
      (hv : v ∈ cx.stratum.firedBy r') (hr : v.head.relation = r)
      (due : v.head.Due (.onSeed cx.functions start F (· = x)) v.clause.body ∅ tuple)

/-- **Everything that the rules admit is accounted for.** -/
def Covered (cx : Context) (rules : List Rule) (start F owed : Facts) (tasks : List Task)
    (pending : Facts) : Prop :=
  ∀ r tuple, Stratum.admitted cx.functions rules start F r tuple →
    Accounted cx start F owed tasks pending r tuple

section

variable {owed owed' pending pending' : Facts} {tasks tasks' : List Task}

/-- **More facts** account for what they did, if nothing waits and nothing is pending for less. -/
theorem Accounted.mono {r : Relation} {tuple : Tuple} (hF : F.Within G)
    (htasks : tasks ⊆ tasks') (hpending : pending.Within pending')
    (h : Accounted cx start F owed tasks pending r tuple) :
    Accounted cx start G owed tasks' pending' r tuple := by
  cases h with
  | stored h => exact .stored (hF _ _ h)
  | owed h => exact .owed h
  | waits t ht hr due => exact .waits t (htasks ht) hr (due.mono hF)
  | pending r' x h v hv hr due =>
    exact .pending r' x (hpending _ _ h) v hv hr (due.mono (Scene.onSeed_within hF fun _ h => h))

namespace Covered

theorem mono (h : Covered cx rules start F owed tasks pending) (htasks : tasks ⊆ tasks')
    (hpending : pending.Within pending') : Covered cx rules start F owed tasks' pending' :=
  fun r tuple hd => (h r tuple hd).mono (Facts.Within.refl F) htasks hpending

/-- Nothing is admitted by no rules. -/
theorem nil : Covered cx [] start F owed tasks pending := by
  rintro _ _ ⟨_, ⟨⟩, _⟩

/-- **At the start** everything is due in the base tasks. -/
theorem of_base (diff : cx.stratum.Differential cx.functions rules start) (hF : F.Measured)
    (bases : ∀ c ∈ cx.stratum.base, ∃ t ∈ tasks, t.clause = c ∧ t.seed = none ∧ t.resumption = none) :
    Covered cx rules start F owed tasks pending := by
  intro r tuple hd
  obtain ⟨c, hc, hr, due⟩ := diff.due F r tuple hF hd
  obtain ⟨t, ht, rfl, hseed, hnone⟩ := bases c hc
  refine .waits t ht hr ?_
  rw [Task.Due, hnone]
  change t.clause.head.Due (t.scene cx start F) _ _ _
  rwa [Task.scene, hseed]

/-- **A new tuple** is pending, unless it sets nothing off. -/
theorem enter (diff : cx.stratum.Differential cx.functions rules start)
    (h : Covered cx rules start F owed tasks pending) {r : Relation} {x : Tuple}
    (hr : cx.stratum.Heads r) (hG : G.Measured) (hsub : F.Within G)
    (hnew : ∀ r' t, G r' t → F r' t ∨ r' = r ∧ t = x) (hpending : pending.Within pending')
    (entered : ∀ v ∈ cx.stratum.firedBy r, pending' r x) :
    Covered cx rules start G owed tasks pending' := by
  intro r' tuple hd
  rcases diff.complete F G r x r' tuple hG hr hnew hd with hd | ⟨v, hv, hvr, due⟩
  · exact (h r' tuple hd).mono hsub (List.Subset.refl _) hpending
  · exact .pending r x (entered v hv) v hv hvr due

/-- **Setting off** pending tuples makes tasks of them. -/
theorem setOff (h : Covered cx rules start F owed tasks pending)
    (moved : ∀ r x, pending r x → ∀ v ∈ cx.stratum.firedBy r, pending' r x ∨
      ∃ t ∈ tasks', t.clause = v ∧ t.resumption = none ∧ ∃ seed, t.seed = some seed ∧ x ∈ seed)
    (htasks : tasks ⊆ tasks') : Covered cx rules start F owed tasks' pending' := by
  intro r tuple hd
  cases h r tuple hd with
  | stored h => exact .stored h
  | owed h => exact .owed h
  | waits t ht hr due => exact .waits t (htasks ht) hr due
  | pending r' x hx v hv hr due =>
    rcases moved r' x hx v hv with hx | ⟨t, ht, rfl, hnone, seed, hseed, hmem⟩
    · exact .pending r' x hx v hv hr due
    · refine .waits t ht hr ?_
      have scene : t.scene cx start F = .onSeed cx.functions start F (· ∈ seed) := by
        rw [Task.scene, hseed]
        rfl
      rw [Task.Due, hnone]
      change t.clause.head.Due (t.scene cx start F) _ _ _
      rw [scene]
      refine due.mono (Scene.onSeed_within (Facts.Within.refl F) ?_)
      rintro y rfl
      exact hmem

/-- **A task that starts to run** owes what was due in it. -/
theorem take (h : Covered cx rules start F (fun _ _ => False) (t :: tasks) pending) :
    Covered cx rules start F (fun r x => r = t.clause.head.relation ∧ t.Due cx start F x) tasks
      pending := by
  intro r tuple hd
  cases h r tuple hd with
  | stored h => exact .stored h
  | owed h => exact h.elim
  | waits u hu hr due =>
    rcases List.mem_cons.1 hu with rfl | hu
    · exact .owed ⟨hr.symm, due⟩
    · exact .waits u hu hr due
  | pending r' x hx v hv hr due => exact .pending r' x hx v hv hr due

/-- **What is settled is not owed.** -/
theorem settle (h : Covered cx rules start F owed tasks pending)
    (settled : ∀ r x, owed r x → Accounted cx start F owed' tasks pending r x) :
    Covered cx rules start F owed' tasks pending := by
  intro r tuple hd
  cases h r tuple hd with
  | stored h => exact .stored h
  | owed h => exact settled r tuple h
  | waits t ht hr due => exact .waits t ht hr due
  | pending r' x hx v hv hr due => exact .pending r' x hx v hv hr due

/-- **Nothing is left to derive** when nothing waits and nothing is pending. -/
theorem saturated (h : Covered cx rules start F (fun _ _ => False) [] fun _ _ => False) :
    (Stratum.admitted cx.functions rules start F).Within F := by
  intro r tuple hd
  cases h r tuple hd with
  | stored h => exact h
  | owed h => exact h.elim
  | waits t ht => cases ht
  | pending r x h => exact h.elim

end Covered

end

end Datalog
