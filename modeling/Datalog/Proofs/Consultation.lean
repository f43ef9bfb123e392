import Datalog.Meaning.Consultation
import Datalog.Proofs.Assoc

/-!
# Proofs/Consultation — a memory is not noticed

A memory recalls exactly the questions that are settled, with the answers of the solver behind it
(`Solver.Memory.Recalls`), and each query keeps this up.  So a run of queries is answered as if
there were no memory, the solver sees those that are not settled when they come, and the others are
the hits (`Solver.Memory.transparent`).
-/

namespace Datalog

namespace Solver

variable {answer : Solver} {past : Transcript} {q q' : Query}

/-- The query with what the solver says to it. -/
def entry (answer : Solver) (q : Query) : Query × Except Fault Verdict :=
  (q, answer q.assertions q.wantModel)

@[simp] theorem entry_fst (answer : Solver) (q : Query) : (answer.entry q).1 = q := rfl

/-- Only the question counts. -/
theorem entry_congr (same : q.question = q'.question) :
    (answer.entry q).2 = (answer.entry q').2 := by
  obtain ⟨assertions, wantModel⟩ := Prod.mk.inj same
  rw [entry, entry, assertions, wantModel]

theorem Transcript.settles_concat {e : Query × Except Fault Verdict} :
    Transcript.Settles (past ++ [e]) q ↔
      past.Settles q ∨ e.1.question = q.question ∧ isFinal e.2 = true := by
  simp [Transcript.Settles, or_and_right, exists_or]

namespace Memory

variable {σ : Type u} {service : Service σ} {memory : Memory} {v : Verdict}

/-- **A solver without a state** is asked by `check` in the same way. -/
theorem ask_eq_check (solver : Solver) (q : Query) (memory : Memory) (s : σ) :
    memory.ask (fun q s => (solver q.assertions q.wantModel, s)) q s =
      ((memory.check solver q.assertions q.wantModel).1,
        (memory.check solver q.assertions q.wantModel).2, s) := by
  cases known : memory.verdicts.get? (q.assertions, q.wantModel) <;>
    simp only [ask, check, Query.question, known]

/-- The memory once a question that it did not know has been answered. -/
def noted (memory : Memory) (question : List Term × Bool) (answer : Except Fault Verdict) :
    Memory where
  verdicts := match answer with
    | .ok .unknown | .error _ => memory.verdicts
    | .ok verdict => memory.verdicts.put question verdict
  hits := memory.hits
  asked := memory.asked + 1

theorem check_of_unknown {solver : Solver} {assertions : List Term} {wantModel : Bool}
    (unknown : memory.verdicts.get? (assertions, wantModel) = none) :
    memory.check solver assertions wantModel = (solver assertions wantModel,
      memory.noted (assertions, wantModel) (solver assertions wantModel)) := by
  rw [check, unknown]
  cases solver assertions wantModel with
  | error fault => rfl
  | ok verdict => cases verdict <;> rfl

/-- **Only final answers are noted.** -/
theorem get?_noted {question question' : List Term × Bool} {a : Except Fault Verdict} :
    (memory.noted question a).verdicts.get? question' = some v ↔
      if question = question' ∧ isFinal a = true then a = .ok v
      else memory.verdicts.get? question' = some v := by
  have put (verdict : Verdict) : (memory.verdicts.put question verdict).get? question' = some v ↔
      if question = question' then Except.ok (ε := Fault) verdict = .ok v
      else memory.verdicts.get? question' = some v := by
    rw [Assoc.get?_put]
    split <;> simp
  cases a with
  | error fault => simp [noted, isFinal]
  | ok verdict => cases verdict <;> simp [noted, isFinal, put]

/-! ## What a memory recalls -/

/-- **The memory has a verdict exactly for the questions that are settled**, and it is what the
solver says. -/
structure Recalls (answer : Solver) (past : Transcript) (memory : Memory) : Prop where
  truthful : ∀ e ∈ past, e = answer.entry e.1
  get?_eq_some_iff : ∀ (q : Query) (v : Verdict), memory.verdicts.get? q.question = some v ↔
    past.Settles q ∧ (answer.entry q).2 = .ok v

namespace Recalls

theorem start : Recalls answer [] {} where
  truthful := nofun
  get?_eq_some_iff q v := by simp [Transcript.Settles]

theorem truthful_concat (h : Recalls answer past memory) :
    ∀ e ∈ past ++ [answer.entry q], e = answer.entry e.1 := by
  intro e he
  rcases List.mem_append.1 he with he | he
  · exact h.truthful e he
  · rw [List.mem_singleton.1 he]
    rfl

/-- A settled question is one that the memory knows. -/
theorem exists_verdict (h : Recalls answer past memory) (settled : past.Settles q) :
    ∃ v, (answer.entry q).2 = .ok v ∧ memory.verdicts.get? q.question = some v := by
  obtain ⟨e, he, same, final⟩ := settled
  rw [h.truthful e he, entry_congr same] at final
  cases said : (answer.entry q).2 with
  | error fault =>
    rw [said] at final
    cases final
  | ok v =>
    refine ⟨v, rfl, (h.get?_eq_some_iff q v).2 ⟨⟨e, he, same, ?_⟩, said⟩⟩
    rw [h.truthful e he, entry_congr same]
    exact final

theorem get?_eq_none (h : Recalls answer past memory) (unsettled : ¬past.Settles q) :
    memory.verdicts.get? q.question = none :=
  Option.eq_none_iff_forall_ne_some.2 fun v known =>
    unsettled ((h.get?_eq_some_iff q v).1 known).1

/-- **A hit** adds nothing to what is recalled. -/
theorem hit (h : Recalls answer past memory) (settled : past.Settles q) :
    Recalls answer (past ++ [answer.entry q]) { memory with hits := memory.hits + 1 } where
  truthful := h.truthful_concat
  get?_eq_some_iff q' v := by
    rw [h.get?_eq_some_iff, Transcript.settles_concat]
    refine and_congr_left' ⟨.inl, fun either => either.elim id fun ⟨same, _⟩ => ?_⟩
    obtain ⟨e, he, asked, final⟩ := settled
    exact ⟨e, he, asked.trans same, final⟩

/-- **Noting an answer** settles its question if the answer is final. -/
theorem noted (h : Recalls answer past memory) :
    Recalls answer (past ++ [answer.entry q]) (memory.noted q.question (answer.entry q).2) where
  truthful := h.truthful_concat
  get?_eq_some_iff q' v := by
    rw [get?_noted, Transcript.settles_concat, entry_fst]
    split
    · next new =>
      rw [entry_congr new.1]
      exact ⟨fun said => ⟨.inr (entry_congr new.1 ▸ new), said⟩, And.right⟩
    · next old => rw [h.get?_eq_some_iff, or_iff_left old]

end Recalls

/-! ## Queries -/

/-- What one query to the memory comes to. -/
theorem ask_of_settled (h : Recalls answer past memory) (settled : past.Settles q) (s : σ) :
    memory.ask service q s =
      ((answer.entry q).2, { memory with hits := memory.hits + 1 }, s) := by
  obtain ⟨v, said, known⟩ := h.exists_verdict settled
  rw [said, ask, known]

theorem ask_of_unsettled (steady : ∀ q s, (service q s).1 = (answer.entry q).2)
    (h : Recalls answer past memory) (unsettled : ¬past.Settles q) (s : σ) :
    memory.ask service q s =
      ((answer.entry q).2, memory.noted q.question (answer.entry q).2, (service q s).2) := by
  have unknown := h.get?_eq_none unsettled
  rw [ask, unknown]
  dsimp only
  rw [check_of_unknown unknown, steady]
  rfl

/-- The queries from some point on. -/
theorem askAll_of_recalls (steady : ∀ q s, (service q s).1 = (answer.entry q).2)
    (queries : List Query) : ∀ {past : Transcript} {memory : Memory} (s : σ),
      Recalls answer past memory → ∃ memory',
        askAll service queries memory s = (queries.map fun q => (answer.entry q).2, memory',
          (past.unsettled (queries.map answer.entry)).foldl (fun s q => (service q s).2) s) ∧
        memory'.hits + (past.unsettled (queries.map answer.entry)).length =
          memory.hits + queries.length ∧
        memory'.asked = memory.asked + (past.unsettled (queries.map answer.entry)).length := by
  induction queries with
  | nil => exact fun s _ => ⟨_, rfl, rfl, rfl⟩
  | cons q queries ih =>
    intro past memory s h
    by_cases settled : past.Settles q
    · obtain ⟨memory', run, hits, asked⟩ := ih s (h.hit settled)
      have same : past.unsettled ((q :: queries).map answer.entry) =
          Transcript.unsettled (past ++ [answer.entry q]) (queries.map answer.entry) :=
        if_pos settled
      refine ⟨memory', ?_, ?_, ?_⟩
      · rw [askAll, ask_of_settled h settled, same]
        simp only [run, List.map_cons]
      · rw [same, hits, List.length_cons]
        exact Nat.add_right_comm ..
      · rw [same, asked]
    · obtain ⟨memory', run, hits, asked⟩ := ih (service q s).2 (h.noted (q := q))
      have more : past.unsettled ((q :: queries).map answer.entry) =
          q :: Transcript.unsettled (past ++ [answer.entry q]) (queries.map answer.entry) :=
        if_neg settled
      refine ⟨memory', ?_, ?_, ?_⟩
      · rw [askAll, ask_of_unsettled steady h settled, more]
        simp only [run, List.map_cons, List.foldl_cons]
      · rw [more, List.length_cons, List.length_cons, ← Nat.add_assoc, hits]
        rfl
      · rw [more, List.length_cons, asked]
        exact Nat.add_right_comm ..

/-- **A memory is not noticed.**  If what a solver says depends on the question alone, then each of
several queries is answered as the solver would answer it; the solver is asked exactly those that no
earlier query settles, one after the other; and the others are the hits. -/
theorem transparent (steady : ∀ q s, (service q s).1 = answer q.assertions q.wantModel)
    {queries : List Query} {s s' : σ} {answers : List (Except Fault Verdict)}
    (run : askAll service queries {} s = (answers, memory, s')) :
    answers = queries.map (fun q => answer q.assertions q.wantModel) ∧
    s' = (Transcript.unsettled [] (queries.zip answers)).foldl (fun s q => (service q s).2) s ∧
    memory.asked = (Transcript.unsettled [] (queries.zip answers)).length ∧
    memory.hits + memory.asked = queries.length := by
  obtain ⟨memory', whole, hits, asked⟩ :=
    askAll_of_recalls steady queries s Recalls.start
  obtain ⟨rfl, rfl, rfl⟩ : answers = _ ∧ memory = _ ∧ s' = _ := by
    simpa only [Prod.mk.injEq] using run.symm.trans whole
  have zipped : queries.zip (queries.map fun q => (answer.entry q).2) =
      queries.map answer.entry :=
    List.map_prod_left_eq_zip.symm
  rw [zipped]
  have asked : memory.asked =
      (Transcript.unsettled [] (queries.map answer.entry)).length :=
    asked.trans (Nat.zero_add _)
  exact ⟨rfl, rfl, asked, asked ▸ hits.trans (Nat.zero_add _)⟩

end Memory

end Solver

/-! ## An example -/

namespace Inquiry

open Solver

/-- Decides `true`, gives up on `unknown`, and takes nothing else. -/
def verdict : Solver := fun assertions _ =>
  match assertions with
  | [.ctor "true" []] => .ok (.sat none)
  | [.ctor "unknown" []] => .ok .unknown
  | _ => .error (.solver "not a formula")

/-- Keeps a log of what it is asked. -/
def service : Service (List Query) := fun q log => (verdict q.assertions q.wantModel, log ++ [q])

/-- A query that the service decides. -/
def yes : Query := { assertions := [.ctor "true" []], wantModel := false }

/-- A query that it gives up on. -/
def moot : Query := { assertions := [.ctor "unknown" []], wantModel := false }

/-- A query that it cannot read. -/
def wrong : Query := { assertions := [.int 1], wantModel := false }

/-- Every query comes more than once; `yes` also with a limit, and asking for a model. -/
def queries : List Query :=
  [yes, { yes with timeout := some 5 }, { yes with wantModel := true }, moot, moot, wrong, wrong]

/-- Only the repeated `yes` is answered from memory, although it comes with a limit. -/
theorem passed_on : ∃ answers memory,
    Memory.askAll service queries {} [] = (answers, memory,
      [yes, { yes with wantModel := true }, moot, moot, wrong, wrong]) ∧
    answers = queries.map (fun q => verdict q.assertions q.wantModel) ∧ memory.hits = 1 := by
  rcases run : Memory.askAll service queries {} [] with ⟨answers, memory, log⟩
  have steady (q : Query) (log : List Query) :
      (service q log).1 = verdict q.assertions q.wantModel := rfl
  obtain ⟨rfl, rfl, asked, hits⟩ := Memory.transparent steady run
  have passed : Transcript.unsettled [] (queries.zip (queries.map fun q =>
      verdict q.assertions q.wantModel)) =
        [yes, { yes with wantModel := true }, moot, moot, wrong, wrong] := by
    decide
  rw [passed] at asked ⊢
  exact ⟨_, memory, rfl, rfl, Nat.add_right_cancel (hits.trans (congrArg (1 + ·) asked.symm))⟩

end Inquiry

end Datalog
