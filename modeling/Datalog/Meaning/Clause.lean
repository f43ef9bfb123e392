import Datalog.Clause.Perform
import Datalog.Meaning.Facts

/-!
# Meaning/Clause — what a clause derives from a set of facts

A body is run from left to right over a set of facts that does not change: each step leads from
bindings to bindings, in more than one way if it is a lookup.  Negated lookups are tested against a
set of their own, so that derivation is monotone in the facts that positive lookups read
(`Clause.Derives.mono`); a lookup of new tuples reads the seed.
-/

namespace Datalog

/-- What the steps of a body are run against. -/
structure Scene where
  functions : Functions
  /-- What positive lookups read. -/
  facts : Facts
  /-- What negated lookups are tested against. -/
  absent : Facts
  /-- What a lookup of new tuples reads; without a seed it reads the facts. -/
  seed : Option (Tuple → Prop) := none

/-- The tuples that a positive goal ranges over. -/
def Scene.Offers (s : Scene) (g : Goal) (t : Tuple) : Prop :=
  match g.delta, s.seed with
  | true, some seed => seed t
  | _, _ => s.facts g.relation t

/-- **One step leads from bindings to bindings.** -/
inductive Step.Leads (s : Scene) : Step → Bindings → Bindings → Prop
  | assign {v t b b'} (h : Step.performAssign s.functions v t b = .ok b') :
      Leads s (.assign v t) b b'
  | check {l r negated b} (h : Step.performCheck s.functions l r negated b = .ok true) :
      Leads s (.check l r negated) b b
  | destruct {t f ys b b'} (h : Step.performDestruct s.functions t f ys b = .ok (some b')) :
      Leads s (.destruct t f ys) b b'
  | found {g b key tuple} (positive : g.negated = false) (hkey : g.key s.functions b = .ok key)
      (offered : s.Offers g tuple) (agrees : key.agrees tuple = true) :
      Leads s (.lookup g) b (g.bind tuple b)
  | absent {g b key} (negated : g.negated = true) (hkey : g.key s.functions b = .ok key)
      (none : ∀ tuple, s.absent g.relation tuple → key.agrees tuple = false) :
      Leads s (.lookup g) b b

/-- The steps of a body lead from bindings to bindings. -/
inductive Step.Path (s : Scene) : List Step → Bindings → Bindings → Prop
  | nil {b} : Path s [] b b
  | cons {step steps b c d} (first : step.Leads s b c) (rest : Path s steps c d) :
      Path s (step :: steps) b d

/-- **The clause derives the tuple**: some path through the body, from no bindings at all, ends
where the head has the tuple as its values. -/
def Clause.Derives (s : Scene) (c : Clause) (tuple : Tuple) : Prop :=
  ∃ b, Step.Path s c.body ∅ b ∧ Tuple.evaluate b s.functions c.head.args = .ok tuple

/-! ## Monotonicity -/

/-- **The second scene offers no less**, and is the same otherwise. -/
structure Scene.Within (s s' : Scene) : Prop where
  functions : s'.functions = s.functions
  absent : s'.absent = s.absent
  offers : ∀ g t, s.Offers g t → s'.Offers g t

theorem Step.Leads.mono {s s' : Scene} (h : s.Within s') {step : Step} {b c : Bindings}
    (hl : step.Leads s b c) : step.Leads s' b c := by
  cases s' with | mk fns facts absent seed =>
  obtain ⟨rfl, rfl, offers⟩ := h
  cases hl with
  | assign h' => exact .assign h'
  | check h' => exact .check h'
  | destruct h' => exact .destruct h'
  | found positive hkey offered agrees => exact .found positive hkey (offers _ _ offered) agrees
  | absent negated hkey none => exact .absent negated hkey none

theorem Step.Path.mono {s s' : Scene} (h : s.Within s') {steps : List Step} {b c : Bindings}
    (hp : Step.Path s steps b c) : Step.Path s' steps b c := by
  induction hp with
  | nil => exact .nil
  | cons first _ ih => exact .cons (first.mono h) ih

/-- **More facts derive no less.** -/
theorem Clause.Derives.mono {s s' : Scene} (h : s.Within s') {c : Clause} {tuple : Tuple}
    (hc : c.Derives s tuple) : c.Derives s' tuple := by
  obtain ⟨b, path, value⟩ := hc
  exact ⟨b, path.mono h, h.functions ▸ value⟩

/-- The same scene with other facts for positive lookups. -/
def Scene.withFacts (s : Scene) (F : Facts) : Scene := { s with facts := F }

theorem Scene.withFacts_within {F G : Facts} (h : F.Within G) (s : Scene) :
    (s.withFacts F).Within (s.withFacts G) := by
  refine ⟨rfl, rfl, fun g t ht => ?_⟩
  rcases s with ⟨fns, facts, absent, seed⟩
  rcases g with ⟨r, args, negated, delta⟩
  cases delta <;> cases seed
  · exact h _ _ ht
  · exact h _ _ ht
  · exact h _ _ ht
  · exact ht

end Datalog
