import Datalog.Meaning.Clause

/-!
# Meaning/Closure — the least set of facts that clauses close

`closure` is the least set that contains the given facts and everything the clauses derive from it:
it contains them (`start_within_closure`), it is closed (`closed_closure`), and it lies within every
set that is both (`closure_within`).  Negated lookups are tested against the given facts, which is
their final extent as long as no clause negates a relation that it derives.
-/

namespace Datalog

/-- The scene in which clauses are closed: positive lookups read `F`. -/
def Scene.over (fns : Functions) (start F : Facts) : Scene where
  functions := fns
  facts := F
  absent := start

/-- Whatever the clauses derive from `F` is in `F`. -/
def Facts.Closed (F : Facts) (fns : Functions) (clauses : List Clause) (start : Facts) : Prop :=
  ∀ c ∈ clauses, ∀ tuple, c.Derives (.over fns start F) tuple → F c.head.relation tuple

/-- **The least closed set of facts that contains `start`.** -/
def Facts.closure (fns : Functions) (clauses : List Clause) (start : Facts) : Facts := fun r t =>
  ∀ F : Facts, start.Within F → F.Closed fns clauses start → F r t

namespace Facts

variable {fns : Functions} {clauses : List Clause} {start : Facts}

theorem start_within_closure : start.Within (closure fns clauses start) :=
  fun r t h _ hF _ => hF r t h

theorem closure_within {F : Facts} (h : start.Within F) (hF : F.Closed fns clauses start) :
    (closure fns clauses start).Within F :=
  fun _ _ ht => ht F h hF

theorem closed_closure : (closure fns clauses start).Closed fns clauses start :=
  fun c hc tuple hd F h hF =>
    hF c hc tuple (hd.mono (Scene.withFacts_within (closure_within h hF) (.over fns start F)))

end Facts

end Datalog
