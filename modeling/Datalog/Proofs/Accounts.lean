import Datalog.Proofs.Database
import Datalog.Proofs.Evaluation.Reports

/-!
# Proofs/Accounts — what a run has counted and echoed

Whatever the order of the tasks and however they end, the facts that a run has stored are the ones
it has reported as new, each of them once.  All of these are counted, and echoed if their relation
is tracked, but for those that an index could not take (`Database.accounts_of_run`).
-/

namespace Datalog

namespace Store

variable {s s' : Store} {r : Relation} {tuple : Tuple}

/-! ## The number of facts -/

/-- Replacing an extent replaces its tuples in the total. -/
theorem total_put (e : Extent) :
    Store.total (s.put r e) + (s.extent r).tuples.length = s.total + e.tuples.length := by
  have written : ∀ es : List (Relation × Extent),
      ((Assoc.write r e es).flatMap fun e => e.2.tuples).length +
          ((Assoc.find r es).getD {}).tuples.length =
        (es.flatMap fun e => e.2.tuples).length + e.tuples.length := by
    intro es
    induction es with
    | nil => simp [Assoc.write, Assoc.find]
    | cons f es ih =>
      rw [Assoc.write, Assoc.find]
      split
      · simp only [List.flatMap_cons, List.length_append, Option.getD_some]
        omega
      · simp only [List.flatMap_cons, List.length_append]
        omega
  exact written s.entries

theorem total_add (new : ¬s.Holds r tuple) : (s.add r tuple).1.total = s.total + 1 := by
  have h := total_put (s := s) (r := r) { tuples := (s.extent r).tuples ++ [tuple]
                                          indices := (Extent.insertAll tuple (s.extent r).indices).1 }
  rw [add_of_notMem new]
  dsimp only at h ⊢
  rw [List.length_append, List.length_singleton] at h
  omega

/-- **The total grows** by the facts that are reported as stored. -/
theorem Receives.total {reports : List Report} (h : s.Receives reports s') :
    s'.total = s.total + (Report.stored reports).length := by
  induction h with
  | nil => rfl
  | @cons s s' report reports entry rest ih =>
    rw [ih, Report.stored, Report.stored]
    by_cases old : s.Holds report.relation report.tuple
    · have present := entry.trans (add_eq_present_iff.2 old)
      rw [add_of_mem old, List.filter_cons_of_neg (by simp [present])]
    · have new : report.insertion ≠ .present := fun h =>
        old (add_eq_present_iff.1 (entry.symm.trans h))
      rw [total_add old, List.filter_cons_of_pos (by simp [new]), List.map_cons, List.length_cons]
      omega

end Store

namespace Report

/-- **A fact that was new** went into every index, or one of them could not take it. -/
theorem stored_perm (reports : List Report) :
    (stored reports).Perm (added reports ++ crashed reports) := by
  have split := List.filter_append_perm (fun report : Report => decide (report.insertion = .added))
    (reports.filter (·.insertion ≠ .present))
  rw [List.filter_filter, List.filter_filter] at split
  refine (split.map fact).symm.trans (.of_eq ?_)
  rw [List.map_append, added, crashed]
  congr 3 <;> (funext report; cases report.insertion <;> rfl)

/-- Each report is of a fact that was new or of one that was there already. -/
theorem length_eq (reports : List Report) :
    reports.length = (stored reports).length + (repeated reports).length := by
  have split := List.filter_append_perm
    (fun report : Report => decide (report.insertion = .present)) reports
  have h := split.length_eq
  simp only [stored, repeated, List.length_append, List.length_map, decide_not] at h ⊢
  omega

end Report

/-! ## Whole runs -/

namespace Database

variable {schedule : Schedule} {budget : Nat} {db db' : Database}

/-- The reports of some strata, evaluated in turn up to the first that fails. -/
def strataReports (schedule : Schedule) (budget : Nat) : List Stratum → Database → List Report
  | [], _ => []
  | s :: rest, db =>
    (db.evaluation s).reports schedule budget ++
      match (db.evaluation s).run schedule budget with
      | some (e, .ok _) => strataReports schedule budget rest (db.absorb e.world)
      | _ => []

/-- **The reports of a run**: the complete matches whose head got a value, in the order in which
they were found. -/
def reports (db : Database) (schedule : Schedule) (budget : Nat) : List Report :=
  strataReports schedule budget db.strata db

/-- **The database has accounted for the reports.**  The facts that an index could not take are
stored, and neither counted nor echoed; where there are none, all that is new is. -/
structure Accounts (db : Database) (reports : List Report) (db' : Database) : Prop where
  /-- The stored facts are there now and were not before; each of them is reported once. -/
  stored : (Report.stored reports).Nodup ∧
    ∀ r t, (r, t) ∈ Report.stored reports ↔ db'.store.Holds r t ∧ ¬db.store.Holds r t
  total : db'.store.total = db.store.total + (Report.stored reports).length
  split : (Report.stored reports).Perm (Report.added reports ++ Report.crashed reports)
  newFacts : db'.counters.newFacts = db.counters.newFacts + (Report.added reports).length
  /-- A listener hears one line for each of these that is of a tracked relation. -/
  heard : ∀ earlier, db.listener = .listening earlier → ∃ lines,
    db'.listener = .listening (lines ++ earlier) ∧
      lines.Perm (((Report.added reports).filter (·.1 ∈ db.tracked)).map Report.line)
  /-- If work is recorded, all reports are counted but those of a fact that an index could not
  take. -/
  reported : db.settings.recordWork = true →
    db'.counters.newFacts + db'.counters.duplicates + (Report.crashed reports).length =
      db.counters.newFacts + db.counters.duplicates + reports.length

/-- **What the strata have done to the books**, one after the other. -/
structure Booked (db : Database) (reports : List Report) (db' : Database) : Prop where
  store : db.store.Receives reports db'.store
  newFacts : db'.counters.newFacts = db.counters.newFacts + (Report.added reports).length
  duplicates : db.settings.recordWork = true →
    db'.counters.duplicates = db.counters.duplicates + (Report.repeated reports).length
  listener : db'.listener = db.listener.hear
    (((Report.added reports).filter (·.1 ∈ db.tracked)).map Report.line).reverse
  settings : db'.settings = db.settings
  tracked : db'.tracked = db.tracked

namespace Booked

variable {db'' : Database} {reports more : List Report}

theorem refl (db : Database) : db.Booked [] db :=
  ⟨.nil, rfl, fun _ => rfl, by cases h : db.listener <;> rfl, rfl, rfl⟩

theorem trans (h : db.Booked reports db') (h' : db'.Booked more db'') :
    db.Booked (reports ++ more) db'' where
  store := h.store.append h'.store
  newFacts := by
    rw [h'.newFacts, h.newFacts, Report.added_append, List.length_append, Nat.add_assoc]
  duplicates set := by
    rw [h'.duplicates (h.settings ▸ set), h.duplicates set, Report.repeated_append,
      List.length_append, Nat.add_assoc]
  listener := by
    rw [h'.listener, h.listener, h.tracked, Report.added_append, List.filter_append,
      List.map_append, List.reverse_append]
    cases db.listener <;> simp [Listener.hear]
  settings := h'.settings.trans h.settings
  tracked := h'.tracked.trans h.tracked

/-- **An evaluation that is absorbed.** -/
theorem of_evaluation {s : Stratum} {e : Evaluation} {result : Except Fault Summary}
    (h : (db.evaluation s).run schedule budget = some (e, result)) :
    db.Booked ((db.evaluation s).reports schedule budget) (db.absorb e.world) := by
  have booked := Evaluation.booked_of_run h
  refine ⟨booked.store, booked.newFacts, booked.duplicates, ?_, rfl, rfl⟩
  have echoed := booked.echoed
  rw [show (db.evaluation s).world.echoed = [] from rfl, List.append_nil] at echoed
  rw [absorb, echoed]
  rfl

theorem accounts (h : db.Booked reports db') : db.Accounts reports db' := by
  obtain ⟨nodup, once⟩ := h.store.stored_once
  have split := Report.stored_perm reports
  refine ⟨⟨nodup, fun r t => once (r, t)⟩, h.store.total, split, h.newFacts, fun earlier heard => ?_,
    fun set => ?_⟩
  · refine ⟨_, ?_, List.reverse_perm _⟩
    rw [h.listener, heard]
    rfl
  · have lengths := split.length_eq
    have all := Report.length_eq reports
    have duplicates := h.duplicates set
    have newFacts := h.newFacts
    rw [List.length_append] at lengths
    omega

end Booked

theorem booked_of_runStrata {number : Nat} {strata : List Stratum} {result : Except RunError Unit}
    (h : runStrata schedule budget number strata db = some (db', result)) :
    db.Booked (strataReports schedule budget strata db) db' := by
  induction strata generalizing number db with
  | nil =>
    cases h
    exact .refl _
  | cons s rest ih =>
    rw [runStrata] at h
    obtain ⟨⟨e, r⟩, ran, h⟩ := Option.bind_eq_some_iff.1 h
    have first := Booked.of_evaluation ran
    rw [strataReports, ran]
    cases r with
    | ok summary => exact first.trans (ih h)
    | error fault =>
      cases h
      exact first.trans (.refl _)

/-- **A run accounts for what it reports**, whether it ends well or fails, under any settings and in
any order of the tasks. -/
theorem accounts_of_run {result : Except RunError Summary}
    (h : db.run schedule budget = some (db', result)) :
    db.Accounts (db.reports schedule budget) db' := by
  rw [run] at h
  obtain ⟨⟨db₁, r⟩, ran, h⟩ := Option.bind_eq_some_iff.1 h
  have booked := booked_of_runStrata ran
  cases r <;> cases h <;> exact booked.accounts

end Database

namespace Absent

/-- The database with its strata, recording work and echoing `q`. -/
def recording : Database :=
  let db := database .assign
  { db with settings := { db.settings with recordWork := true }, tracked := [q]
            listener := .listening [] }

/-- The facts `p(2)` and `q(1)` are new, and the second is echoed. -/
theorem exists_accounts : ∃ db result, recording.run Policy.newest 20 = some (db, result) ∧
    recording.Accounts (recording.reports Policy.newest 20) db ∧
      Report.added (recording.reports Policy.newest 20) = [(p, [.int 2]), (q, [.int 1])] ∧
      db.listener = .listening ["[TRACKED] q(1)"] := by
  have ok : (recording.run Policy.newest 20).any
      (fun r => r.1.listener = .listening ["[TRACKED] q(1)"]) = true := by decide +kernel
  obtain ⟨⟨db, result⟩, ran, ok⟩ := (Option.any_eq_true ..).1 ok
  exact ⟨db, result, ran, Database.accounts_of_run ran, by decide +kernel, of_decide_eq_true ok⟩

end Absent

namespace Oversized

/-- The relation that the rule reads. -/
def p : Relation := ⟨"p", 1, .extensional⟩

/-- The relation that the rule derives. -/
def q : Relation := ⟨"q", 1, .bottomUp⟩

/-- `q(x) :- p(x).` -/
def rules : List Rule :=
  let x : Term := .var ⟨"x", 0⟩
  [{ head := { relation := q, args := [x] }, body := [.atom { relation := p, args := [x] }] }]

/-- One fact, and an index of `q` on a position that it does not have. -/
def database : Database :=
  let db := (Database.addStratum { tracked := [q], listener := .listening [] } rules).1
  match (db.store.add p [.int 1]).1.register q [3] with
  | .ok (store, _) => { db with store }
  | .error _ => db

/-- **A fact that an index cannot take** is stored, but neither counted nor echoed. -/
theorem exists_uncounted : ∃ db e, database.run Policy.newest 10 = some (db, .error e) ∧
    db.store.Holds q [.int 1] ∧ ¬database.store.Holds q [.int 1] ∧
      db.store.total = database.store.total + 1 ∧
      db.counters.newFacts = database.counters.newFacts ∧
      q ∈ database.tracked ∧ database.listener = .listening [] ∧ db.listener = .listening [] := by
  have ok : (database.run Policy.newest 10).any (fun r => !r.2.toBool &&
      r.1.store.contains q [.int 1] && r.1.store.total == database.store.total + 1 &&
      r.1.counters.newFacts == database.counters.newFacts &&
      r.1.listener == .listening []) = true := by decide +kernel
  obtain ⟨⟨db, e | summary⟩, ran, ok⟩ := (Option.any_eq_true ..).1 ok
  · simp only [Bool.and_eq_true, beq_iff_eq, Store.contains_iff] at ok
    obtain ⟨⟨⟨⟨_, held⟩, total⟩, newFacts⟩, heard⟩ := ok
    have fresh : ¬database.store.contains q [.int 1] = true := by decide +kernel
    exact ⟨db, e, ran, held, Store.contains_iff.not.1 fresh, total, newFacts, by decide +kernel,
      by decide +kernel, heard⟩
  · simp [Except.toBool] at ok

end Oversized

end Datalog
