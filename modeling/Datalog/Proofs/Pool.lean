import Datalog.Meaning.Pool
import Datalog.Proofs.Evaluation.Visits
import Mathlib.Algebra.BigOperators.Group.Multiset.Basic

/-!
# Proofs/Pool — a pool comes to rest, and reports the first fault

Whatever order the moves of a pool come in, the jobs that have ended and those still to be run are
together the jobs of the forest, the fault that is kept is that of the first job that has told of
one, and the flag is raised only over a fault that is kept (`Pool.Ordered`).  Every move leaves less
to do, and where something is left to do there is a move.  An agenda of jobs is a pool in which one
job runs at a time (`Pool.reaches_runAt`).
-/

namespace Datalog

/-! ## Forests -/

namespace Job

theorem nodes_eq (j : Job) : j.nodes = j :: nodesAll j.children := by
  cases j
  rfl

theorem size_eq (j : Job) : j.size = sizeAll j.children + 1 := by
  cases j
  rfl

theorem sizeAll_eq_sum : ∀ js : List Job, sizeAll js = (js.map size).sum
  | [] => rfl
  | j :: js => by rw [sizeAll, sizeAll_eq_sum js, List.map_cons, List.sum_cons]

theorem fault?_eq_none_iff {j : Job} : j.fault? = none ↔ j.ending = .ok () := by
  rw [fault?]
  cases j.ending <;> simp

/-- **The fault of the first job that has failed**, where the latest comes first. -/
def firstFault : List Job → Option Fault
  | [] => none
  | j :: js => firstFault js <|> j.fault?

theorem firstFault_eq_none_iff : ∀ {js : List Job},
    firstFault js = none ↔ ∀ j ∈ js, j.ending = .ok ()
  | [] => by simp [firstFault]
  | j :: js => by
    rw [firstFault, Option.orElse_eq_orElse, Option.orElse_eq_or, Option.or_eq_none_iff,
      firstFault_eq_none_iff, fault?_eq_none_iff, List.forall_mem_cons, and_comm]

theorem firstFault_eq_some_iff {f : Fault} : ∀ {js : List Job}, firstFault js = some f ↔
    ∃ later j earlier, js = later ++ j :: earlier ∧ j.fault? = some f ∧
      ∀ i ∈ earlier, i.ending = .ok ()
  | [] => by simp [firstFault]
  | j :: js => by
    rw [firstFault, Option.orElse_eq_orElse, Option.orElse_eq_or, Option.or_eq_some_iff,
      firstFault_eq_some_iff, firstFault_eq_none_iff]
    constructor
    · rintro (⟨later, i, earlier, rfl, fails⟩ | ⟨fine, fails⟩)
      · exact ⟨j :: later, i, earlier, rfl, fails⟩
      · exact ⟨[], j, js, rfl, fails, fine⟩
    · rintro ⟨later, i, earlier, same, fails, fine⟩
      rcases later with _ | ⟨k, later⟩
      · cases same
        exact .inr ⟨fine, fails⟩
      · cases same
        exact .inl ⟨later, i, earlier, rfl, fails, fine⟩

end Job

theorem FaultSlot.take_eq_error_iff {s : FaultSlot} {f : Fault} :
    s.take = .error f ↔ s.first = some f := by
  rw [take]
  cases s.first <;> simp

theorem FaultSlot.first_keep_ne_none {s : FaultSlot} {f : Fault} : (s.keep f).first ≠ none := by
  rw [keep]
  cases s.first <;> exact nofun

theorem FaultSlot.take_eq_ok_iff {s : FaultSlot} : s.take = .ok () ↔ s.first = none := by
  rw [take]
  cases s.first <;> simp

/-- A sum over a list without one of its elements. -/
theorem sum_eraseIdx {α : Type u} {M : Type v} [AddCommMonoid M] (f : α → M) {l : List α} {i : Nat}
    {a : α} (h : l[i]? = some a) : f a + ((l.eraseIdx i).map f).sum = (l.map f).sum := by
  obtain ⟨hi, rfl⟩ := List.getElem?_eq_some_iff.1 h
  rw [← List.sum_cons, ← List.map_cons]
  exact ((List.getElem_cons_eraseIdx_perm hi).map f).sum_eq

/-- **The fault of an agenda stays**, whatever runs after it: a task that is told of a failure runs on
an agenda that fails. -/
theorem Agenda.fault_of_reaches {τ : Type u} {σ : Type v} {run : Behaviour τ σ} {a b : Agenda τ σ}
    (h : a.Reaches run b) {f : Fault} (hf : a.fault = some f) : b.fault = some f := by
  refine h.invariant (P := fun b => b.fault = some f) (fun b i task hi hb => ?_) hf
  rw [runAt, hi]
  dsimp only
  rw [hb]
  rfl

namespace Pool

variable {jobs : List Job} {p q : Pool}

/-! ## What is still to be run -/

/-- The jobs that wait for one under way, and itself as long as it has not ended. -/
def pendingOf : Job × Stage → Multiset Job
  | (j, .making cs) => ↑(j :: Job.nodesAll cs)
  | (_, .failing) => 0

/-- **The jobs that have not ended**, those included that nobody has made yet. -/
def pending (p : Pool) : Multiset Job :=
  ↑(Job.nodesAll p.seeds) + (p.queued.map fun j => (j.nodes : Multiset Job)).sum +
    (p.running.map pendingOf).sum

/-- The moves that a job under way still makes, and a bound on those of its children. -/
def effortOf : Job × Stage → Nat
  | (_, .making cs) => 2 + 4 * Job.sizeAll cs
  | (_, .failing) => 1

/-- **A bound on the moves to come**: four for each job, less those that it has made. -/
def effort (p : Pool) : Nat :=
  4 * Job.sizeAll p.seeds + (p.queued.map fun j => 3 + 4 * Job.sizeAll j.children).sum +
    (p.running.map effortOf).sum

/-- **Every move leaves less to do.** -/
theorem Step.effort_lt (h : p.Step q) : q.effort < p.effort := by
  cases h with
  | @seed j js h =>
    have all := congrArg Job.sizeAll h
    rw [Job.sizeAll, j.size_eq] at all
    simp only [effort, all, List.map_cons, List.sum_cons]
    omega
  | @start i j h =>
    have queued := sum_eraseIdx (fun j : Job => 3 + 4 * Job.sizeAll j.children) h
    simp only [effort, List.map_cons, List.sum_cons, effortOf]
    omega
  | @make i j c cs h =>
    have running := sum_eraseIdx effortOf h
    rw [effortOf, Job.sizeAll, c.size_eq] at running
    simp only [effort, List.map_cons, List.sum_cons, effortOf]
    omega
  | @finish i j h =>
    have running := sum_eraseIdx effortOf h
    rw [effortOf] at running
    simp only [effort]
    omega
  | @keep i j _ h =>
    have running := sum_eraseIdx effortOf h
    rw [effortOf] at running
    simp only [effort, List.map_cons, List.sum_cons, effortOf]
    omega
  | @raise i j h =>
    have running := sum_eraseIdx effortOf h
    rw [effortOf] at running
    simp only [effort]
    omega

/-- **No pool runs for ever.** -/
theorem wellFounded_step : WellFounded fun q p : Pool => p.Step q :=
  Subrelation.wf Step.effort_lt (measure effort).wf

/-! ## What every move preserves -/

/-- **A pool in order**: every job has ended once or is still to be run, the fault that is kept is
that of the first job that has failed, and the flag is raised, or about to be, only over a fault. -/
structure Ordered (jobs : List Job) (p : Pool) : Prop where
  once : (p.finished : Multiset Job) + p.pending = (Job.nodesAll jobs : Multiset Job)
  first : p.slot.first = Job.firstFault p.finished
  failing : ∀ j, (j, .failing) ∈ p.running → p.slot.first ≠ none
  raised : p.slot.raised = true → p.slot.first ≠ none

theorem Ordered.start (jobs : List Job) : Ordered jobs { seeds := jobs } where
  once := by simp [pending]
  first := rfl
  failing := nofun
  raised := nofun

/-- A job that has come further is not failing yet. -/
theorem Ordered.failing_of_making (h : Ordered jobs p) {running : List (Job × Stage)} {j k : Job}
    {cs : List Job} (old : ∀ r ∈ running, r ∈ p.running)
    (hk : (k, .failing) ∈ (j, .making cs) :: running) : p.slot.first ≠ none := by
  rcases List.mem_cons.1 hk with hk | hk
  · cases hk
  · exact h.failing k (old _ hk)

/-- **Every move keeps the pool in order.** -/
theorem Ordered.step (h : Ordered jobs p) (step : p.Step q) : Ordered jobs q := by
  have erased {i : Nat} : ∀ r ∈ p.running.eraseIdx i, r ∈ p.running := fun _ =>
    List.mem_of_mem_eraseIdx
  cases step with
  | @seed j js seeds =>
    refine ⟨?_, h.first, h.failing, h.raised⟩
    rw [← h.once, pending, pending, seeds]
    simp only [Job.nodesAll, List.map_cons, List.sum_cons, ← Multiset.coe_add]
    abel
  | @start i j queued =>
    refine ⟨?_, h.first, fun k => h.failing_of_making fun _ => id, h.raised⟩
    rw [← h.once, pending, pending,
      ← sum_eraseIdx (fun j : Job => (j.nodes : Multiset Job)) queued]
    simp only [List.map_cons, List.sum_cons, pendingOf, j.nodes_eq]
    abel
  | @make i j c cs running =>
    refine ⟨?_, h.first, fun k => h.failing_of_making erased, h.raised⟩
    rw [← h.once, pending, pending, ← sum_eraseIdx pendingOf running]
    simp only [pendingOf, Job.nodesAll, List.map_cons, List.sum_cons, ← Multiset.cons_coe,
      ← Multiset.coe_add, ← Multiset.singleton_add]
    abel
  | @finish i j running ok =>
    refine ⟨?_, ?_, fun k hk => h.failing k (erased _ hk), h.raised⟩
    · rw [← h.once, pending, pending, ← sum_eraseIdx pendingOf running]
      simp only [pendingOf, Job.nodesAll, ← Multiset.cons_coe, ← Multiset.singleton_add]
      abel
    · rw [Job.firstFault, Job.fault?_eq_none_iff.2 ok, h.first]
      cases Job.firstFault p.finished <;> rfl
  | @keep i j abort running failed =>
    refine ⟨?_, ?_, fun _ _ => FaultSlot.first_keep_ne_none, fun _ => FaultSlot.first_keep_ne_none⟩
    · rw [← h.once, pending, pending, ← sum_eraseIdx pendingOf running]
      simp only [pendingOf, Job.nodesAll, List.map_cons, List.sum_cons, ← Multiset.cons_coe,
        ← Multiset.singleton_add]
      abel
    · rw [FaultSlot.keep, Job.firstFault, Job.fault?, failed, h.first]
  | @raise i j running =>
    have kept : p.slot.first ≠ none := h.failing j (List.mem_of_getElem? running)
    refine ⟨?_, h.first, fun _ _ => kept, fun _ => kept⟩
    rw [← h.once, pending, pending, ← sum_eraseIdx pendingOf running, pendingOf, zero_add]

theorem Ordered.of_reaches (h : Reaches { seeds := jobs } p) : Ordered jobs p := by
  induction h with
  | refl => exact .start jobs
  | tail _ step ih => exact ih.step step

/-- **A fault that is kept is not replaced.** -/
theorem first_of_reaches (h : p.Reaches q) {f : Fault} (first : p.slot.first = some f) :
    q.slot.first = some f := by
  induction h with
  | refl => exact first
  | tail _ step ih =>
    cases step with
    | keep => rw [FaultSlot.keep, ih]; rfl
    | seed | start | make | finish | raise => exact ih

/-! ## At rest -/

theorem result?_eq_some_iff {r : Except Fault Unit} : p.result? = some r ↔
    (p.seeds = [] ∧ p.queued = [] ∧ p.running = []) ∧ p.slot.take = r := by
  rw [result?]
  split <;> simp_all

/-- **A pool at rest has run every job once**, and reports the first that has failed. -/
theorem Ordered.settles (h : Ordered jobs p) {r : Except Fault Unit} (rest : p.result? = some r) :
    Job.Settles jobs p.finished r := by
  obtain ⟨⟨seeds, queued, running⟩, rfl⟩ := result?_eq_some_iff.1 rest
  have once : p.finished.Perm (Job.nodesAll jobs) := by
    rw [← Multiset.coe_eq_coe, ← h.once, pending, seeds, queued, running]
    simp [Job.nodesAll]
  refine ⟨once, ?_, fun f => ?_⟩
  · rw [FaultSlot.take_eq_ok_iff, h.first, Job.firstFault_eq_none_iff]
    exact forall_congr' fun j => imp_congr_left once.mem_iff
  · rw [FaultSlot.take_eq_error_iff, h.first, Job.firstFault_eq_some_iff]

/-- **Where something is left to do there is a move.** -/
theorem exists_step (busy : p.result? = none) : ∃ q, p.Step q := by
  obtain ⟨seeds, queued, running, finished, slot⟩ := p
  match seeds, queued, running with
  | j :: js, _, _ => exact ⟨_, .seed rfl⟩
  | [], j :: js, _ => exact ⟨_, .start (i := 0) rfl⟩
  | [], [], (j, .making (c :: cs)) :: rs => exact ⟨_, .make (i := 0) rfl⟩
  | [], [], (j, .making []) :: rs =>
    cases ending : j.ending with
    | ok u => exact ⟨_, .finish (i := 0) rfl ending⟩
    | error abort => exact ⟨_, .keep (i := 0) rfl ending⟩
  | [], [], (j, .failing) :: rs => exact ⟨_, .raise (i := 0) rfl⟩
  | [], [], [] => cases busy

/-! ## Agendas of jobs -/

/-- The pool in which the jobs of an agenda wait. -/
def ofAgenda (a : Agenda Job Unit) : Pool where
  seeds := []
  queued := a.waiting
  finished := a.finished
  slot := { first := a.fault, raised := a.fault.isSome }

/-- The seeds go into the queue one by one. -/
theorem reaches_seeded : ∀ (js : List Job) (p : Pool), p.seeds = js →
    p.Reaches { p with seeds := [], queued := js.reverse ++ p.queued }
  | [], p, h => by
    obtain ⟨seeds, queued, running, finished, slot⟩ := p
    cases h
    exact .refl
  | j :: js, p, h => by
    have rest := reaches_seeded js { p with seeds := js, queued := j :: p.queued } rfl
    rw [List.reverse_cons, List.append_assoc]
    exact .head (.seed h) rest

/-- So do the children of a job that has the pool for itself. -/
theorem reaches_made (j : Job) : ∀ (cs : List Job) (p : Pool), p.running = [(j, .making cs)] →
    p.Reaches { p with queued := cs.reverse ++ p.queued, running := [(j, .making [])] }
  | [], p, h => by
    obtain ⟨seeds, queued, running, finished, slot⟩ := p
    cases h
    exact .refl
  | c :: cs, p, h => by
    have first : p.running[0]? = some (j, .making (c :: cs)) := by rw [h]; rfl
    have rest := reaches_made j cs
      { p with queued := c :: p.queued, running := (j, .making cs) :: p.running.eraseIdx 0 }
      (by rw [h]; rfl)
    rw [List.reverse_cons, List.append_assoc]
    exact .head (.make first) rest

/-- The pool in which a job of the agenda is under way, and no other. -/
def atWork (a : Agenda Job Unit) (waiting : List Job) (j : Job) (stage : Stage) : Pool :=
  { ofAgenda a with queued := waiting, running := [(j, stage)] }

/-- **An agenda runs a job** as a pool does that runs nothing else. -/
theorem reaches_runAt {a : Agenda Job Unit} {i : Nat} {j : Job} (hi : a.waiting[i]? = some j) :
    (ofAgenda a).Reaches (ofAgenda (a.runAt Job.run i)) := by
  have started : (ofAgenda a).Step (atWork a (a.waiting.eraseIdx i) j (.making j.children)) :=
    .start hi
  have made := reaches_made j j.children (atWork a (a.waiting.eraseIdx i) j _) rfl
  refine .head started (made.trans ?_)
  have ran : ofAgenda (a.runAt Job.run i) = { ofAgenda a with
      queued := j.children.reverse ++ a.waiting.eraseIdx i
      finished := j :: a.finished
      slot := { first := a.fault <|> j.fault?, raised := (a.fault <|> j.fault?).isSome } } := by
    rw [Agenda.runAt, hi]
    rfl
  obtain ⟨world, waiting, finished, fault⟩ := a
  obtain ⟨rest, hrest⟩ : ∃ rest, j.children.reverse ++ waiting.eraseIdx i = rest := ⟨_, rfl⟩
  rw [ran, Job.fault?]
  dsimp only [atWork]
  rw [hrest]
  cases ending : j.ending with
  | ok u =>
    have last := Step.finish (p := atWork ⟨world, waiting, finished, fault⟩ rest j (.making []))
      (i := 0) rfl ending
    cases fault <;> exact .single last
  | error abort =>
    have kept := Step.keep (p := atWork ⟨world, waiting, finished, fault⟩ rest j (.making []))
      (i := 0) rfl ending
    refine .head kept (.single ?_)
    cases fault <;> exact .raise (j := j) (i := 0) rfl

theorem reaches_of_drain {policy : Policy Job Unit} {budget : Nat} {a b : Agenda Job Unit}
    (ran : Agenda.drain Job.run policy budget a = some b) :
    (ofAgenda a).Reaches (ofAgenda b) ∧ b.waiting = [] :=
  Agenda.drain_invariant (P := fun b => (ofAgenda a).Reaches (ofAgenda b))
    (fun _ _ _ hi reaches => reaches.trans (reaches_runAt hi)) ran .refl

/-- **The jobs of a forest are budget enough.** -/
theorem exists_drain (policy : Policy Job Unit) : ∀ (budget : Nat) (a : Agenda Job Unit),
    Job.sizeAll a.waiting ≤ budget → ∃ b, Agenda.drain Job.run policy budget a = some b := by
  intro budget
  induction budget with
  | zero =>
    intro a h
    rw [Agenda.drain]
    cases hwaiting : a.waiting with
    | nil => exact ⟨a, rfl⟩
    | cons j js =>
      rw [hwaiting, Job.sizeAll, j.size_eq] at h
      omega
  | succ budget ih =>
    intro a h
    rw [Agenda.drain]
    split
    · exact ⟨a, rfl⟩
    · next hempty =>
      have hpos : 0 < a.waiting.length := List.length_pos_iff.2 (by simpa using hempty)
      have hi := List.getElem?_eq_getElem (Nat.mod_lt (policy a) hpos)
      refine ih _ ?_
      have erased := sum_eraseIdx Job.size hi
      rw [Job.size_eq, ← Job.sizeAll_eq_sum, ← Job.sizeAll_eq_sum] at erased
      rw [Agenda.step, Agenda.runAt, hi, Job.sizeAll_eq_sum]
      simp only [Job.run, List.map_append, List.map_reverse, List.sum_append, List.sum_reverse,
        ← Job.sizeAll_eq_sum]
      omega

/-- **A pool comes to rest, and reports the first fault**, whatever order its moves come in.  At rest
every job of the forest has run once, and the result is that of the first job that has told of a
fault, or good if none has failed; before that there always is a move, and no pool runs for ever.  A
fault that is kept is not replaced, and once the flag is up the result is a fault.  All this is so of
an agenda of jobs on any policy, which is a pool that runs one job at a time. -/
theorem quiesces (jobs : List Job) :
    (∀ p, Reaches { seeds := jobs } p →
      (∀ r, p.result? = some r → Job.Settles jobs p.finished r) ∧
      (p.result? = none → ∃ q, p.Step q) ∧
      ∀ q, p.Reaches q → (∀ f, p.slot.first = some f → q.slot.first = some f) ∧
        (p.slot.raised = true → ∀ r, q.result? = some r → ∃ f, r = .error f)) ∧
    (WellFounded fun q p : Pool => p.Step q) ∧
    ∀ policy, ∃ a, Job.runAll policy jobs = some a ∧ Job.Settles jobs a.finished a.result ∧
      Reaches { seeds := jobs } (ofAgenda a) ∧ (ofAgenda a).result? = some a.result ∧
      ∀ b : Agenda Job Unit, b.Reaches Job.run a → b.fault.isSome = true →
        ∃ f, a.result = .error f := by
  refine ⟨fun p reaches => ?_, wellFounded_step, fun policy => ?_⟩
  · have ordered := Ordered.of_reaches reaches
    refine ⟨fun r rest => ordered.settles rest, exists_step, fun q further =>
      ⟨fun f first => first_of_reaches further first, fun raised r rest => ?_⟩⟩
    obtain ⟨f, first⟩ := Option.ne_none_iff_exists'.1 (ordered.raised raised)
    obtain ⟨_, rfl⟩ := result?_eq_some_iff.1 rest
    exact ⟨f, FaultSlot.take_eq_error_iff.2 (first_of_reaches further first)⟩
  · have enough : Job.sizeAll jobs.reverse ≤ Job.sizeAll jobs := by
      rw [Job.sizeAll_eq_sum, Job.sizeAll_eq_sum, List.map_reverse, List.sum_reverse]
    obtain ⟨a, ran⟩ := exists_drain policy (Job.sizeAll jobs)
      { world := (), waiting := jobs.reverse } enough
    obtain ⟨reaches, waiting⟩ := reaches_of_drain ran
    have seeded := reaches_seeded jobs { seeds := jobs } rfl
    rw [List.append_nil] at seeded
    have rest : (ofAgenda a).result? = some a.result :=
      result?_eq_some_iff.2 ⟨⟨rfl, waiting, rfl⟩, rfl⟩
    have all : Reaches { seeds := jobs } (ofAgenda a) := seeded.trans reaches
    refine ⟨a, ran, (Ordered.of_reaches all).settles rest, all, rest, fun b further told => ?_⟩
    obtain ⟨f, hf⟩ := Option.isSome_iff_exists.1 told
    exact ⟨f, Agenda.result_error_iff.2 (Agenda.fault_of_reaches further hf)⟩

end Pool

/-! ## Example -/

namespace Forest

/-- The fault of a solver. -/
def boom : Abort := .fault (.solver "boom")

/-- A job with a child that fails and one that has a child which panics. -/
def jobs : List Job :=
  [.node (.ok ()) [.node (.error boom) [],
    .node (.ok ()) [.node (.error (.crash (some "exploded"))) []]]]

/-- On the newest job first the panic comes before the fault; all four have run, and whatever the
pool might still do, it keeps the panic. -/
theorem quiesces_newest : ∃ a, Job.runAll Policy.newest jobs = some a ∧
    a.finished.Perm (Job.nodesAll jobs) ∧ a.result = .error (.panicked "exploded") ∧
    ∀ q, (Pool.ofAgenda a).Reaches q → q.slot.first = some (.panicked "exploded") := by
  obtain ⟨every, _, agenda⟩ := Pool.quiesces jobs
  obtain ⟨a, ran, settles, reaches, _, _⟩ := agenda Policy.newest
  have ok : (Job.runAll Policy.newest jobs).any
      (fun a => a.fault = some (.panicked "exploded")) = true := by decide +kernel
  rw [ran] at ok
  have first : a.fault = some (.panicked "exploded") := of_decide_eq_true ok
  exact ⟨a, ran, settles.once, Agenda.result_error_iff.2 first,
    fun q further => ((every _ reaches).2.2 q further).1 _ first⟩

end Forest

end Datalog
