import Datalog.Meaning.Backtracking
import Datalog.Proofs.Evaluation.Endings

/-!
# Proofs/Evaluation/Backtracking — walking is searching

From a place on its way forward a walk does what the search over the rest of the body does, and is
then on its way back, with the cursors before that place as they were (`Work.tracks_search`); and
from a place on its way back to a lookup it searches over the tuples that are left there
(`Work.tracks_searchEach`).
-/

namespace Datalog

namespace Work

section

variable (cx : Context) (task : Task) (failed : Bool) (start : Nat)

/-- The search over tuples found for a goal. -/
abbrev searchEach (goal : Goal) (rest : List Slot) (tuples : List Tuple) : Work Unit :=
  tuples.forM fun tuple => do
    take cx goal tuple
    search cx task (conclude cx task failed) rest

/-- **A walk leads on** from one place to another, and reports something on the way. -/
def Leads (place : Place) (w : Worker) (reports : List Report) (place' : Place) (w' : Worker) :
    Prop :=
  ∃ k, ∀ turns, walk cx task failed start (turns + k) place w =
    (walk cx task failed start turns place' w').map fun ending => (ending.1, reports ++ ending.2)

/-- **A walk ends**, if it is given enough turns. -/
def Ends (place : Place) (w : Worker) (ending : Ending) : Prop :=
  ∃ k, ∀ turns, walk cx task failed start (turns + k) place w = some ending

/-- **A walk tracks some work** that ends so: it fails with the work, or is on its way back to
`position` when the work is done, with the cursors before that position as they were. -/
def Tracks (place : Place) (w : Worker) (position : Nat) (reports : List Report) :
    EStateM.Result Abort Worker Unit → Prop
  | .ok _ w' => ∃ cursors, (∀ i < position, cursors[i]? = place.cursors[i]?) ∧
      cursors.length = place.cursors.length ∧
      Leads cx task failed start place w reports ⟨position, .backtracking, cursors⟩ w'
  | .error e w' => Ends cx task failed start place w (.error e w', reports)

end

variable {cx : Context} {task : Task} {failed : Bool} {start position : Nat}
  {place place' place'' : Place} {w w' w'' : Worker} {reports reports' : List Report}
  {cursors : List (Option (List Tuple))} {rest slots : List Slot} {slot : Slot} {goal : Goal}

/-! ## Turn by turn -/

theorem Leads.refl : Leads cx task failed start place w [] place w :=
  ⟨0, fun turns => by cases walk cx task failed start turns place w <;> simp⟩

theorem Leads.trans (h : Leads cx task failed start place w reports place' w')
    (h' : Leads cx task failed start place' w' reports' place'' w'') :
    Leads cx task failed start place w (reports ++ reports') place'' w'' := by
  obtain ⟨k, h⟩ := h
  obtain ⟨k', h'⟩ := h'
  refine ⟨k' + k, fun turns => ?_⟩
  rw [← Nat.add_assoc, h, h', Option.map_map]
  simp [Function.comp_def]

theorem Leads.ends {ending : Ending} (h : Leads cx task failed start place w reports place' w')
    (h' : Ends cx task failed start place' w' ending) :
    Ends cx task failed start place w (ending.1, reports ++ ending.2) := by
  obtain ⟨k, h⟩ := h
  obtain ⟨k', h'⟩ := h'
  refine ⟨k' + k, fun turns => ?_⟩
  rw [← Nat.add_assoc, h, h', Option.map_some]

/-- **After a stretch of the way** the walk goes on tracking. -/
theorem Leads.tracks {result : EStateM.Result Abort Worker Unit}
    (h : Leads cx task failed start place w reports place' w')
    (same : ∀ i < position, place'.cursors[i]? = place.cursors[i]?)
    (length : place'.cursors.length = place.cursors.length)
    (h' : Tracks cx task failed start place' w' position reports' result) :
    Tracks cx task failed start place w position (reports ++ reports') result := by
  cases result with
  | ok u v =>
    obtain ⟨cursors, same', length', leads⟩ := h'
    exact ⟨cursors, fun i hi => (same' i hi).trans (same i hi), length'.trans length,
      h.trans leads⟩
  | error e v => exact h.ends h'

theorem leads_of_turn (h : turn cx task failed start place w = .ok (some place') w') :
    Leads cx task failed start place w (turnReports cx task place w) place' w' :=
  ⟨1, fun turns => by rw [walk, h]⟩

theorem ends_of_turn_ok (h : turn cx task failed start place w = .ok none w') :
    Ends cx task failed start place w (.ok () w', turnReports cx task place w) :=
  ⟨1, fun turns => by rw [walk, h]⟩

theorem ends_of_turn_error {e : Abort} (h : turn cx task failed start place w = .error e w') :
    Ends cx task failed start place w (.error e w', turnReports cx task place w) :=
  ⟨1, fun turns => by rw [walk, h]⟩

/-! ## The four kinds of turns -/

theorem turnReports_backtracking :
    turnReports cx task ⟨position, .backtracking, cursors⟩ w = [] := rfl

theorem turnReports_of_getElem? (body : task.clause.body[position]? = some slot) :
    turnReports cx task ⟨position, .advancing, cursors⟩ w = [] := by
  rw [turnReports, body]

/-- **At the end of the body** the head is concluded. -/
theorem tracks_conclude (body : task.clause.body.length ≤ position) :
    Tracks cx task failed start ⟨position, .advancing, cursors⟩ w position
      (concludeReports cx task w) (conclude cx task failed w) := by
  have past : task.clause.body[position]? = none := List.getElem?_eq_none body
  have reports : turnReports cx task ⟨position, .advancing, cursors⟩ w =
      concludeReports cx task w := by rw [turnReports, past]
  have taken : turn cx task failed start ⟨position, .advancing, cursors⟩ = do
      conclude cx task failed
      return some ⟨position, .backtracking, cursors⟩ := by rw [turn, past]
  rw [← reports]
  cases h : conclude cx task failed w with
  | ok u w' =>
    refine ⟨cursors, fun _ _ => rfl, rfl, leads_of_turn ?_⟩
    rw [taken, Outcome.bind_of_ok h]
    rfl
  | error e w' => exact ends_of_turn_error (by rw [taken, Outcome.bind_of_error h])

/-- **Past a step that is no positive lookup** the walk goes back. -/
theorem leads_back (body : task.clause.body[position]? = some slot)
    (other : slot.step.positiveGoal? = none) (after : start ≤ position) :
    Leads cx task failed start ⟨position + 1, .backtracking, cursors⟩ w []
      ⟨position, .backtracking, cursors⟩ w := by
  refine turnReports_backtracking ▸ leads_of_turn ?_
  rw [turn, if_neg (Nat.ne_of_gt (Nat.lt_succ_of_le after)), Nat.add_sub_cancel, body,
    Option.bind_some, other]
  rfl

theorem Tracks.back {result : EStateM.Result Abort Worker Unit}
    (h : Tracks cx task failed start place w (position + 1) reports result)
    (body : task.clause.body[position]? = some slot) (other : slot.step.positiveGoal? = none)
    (after : start ≤ position) : Tracks cx task failed start place w position reports result := by
  cases result with
  | ok u v =>
    obtain ⟨cursors, same, length, leads⟩ := h
    exact ⟨cursors, fun i hi => same i (hi.trans (Nat.lt_succ_self position)), length,
      reports.append_nil ▸ leads.trans (leads_back body other after)⟩
  | error e v => exact h

/-- **Going back to a lookup** pulls its next tuple. -/
theorem turn_back (body : task.clause.body[position]? = some slot)
    (positive : slot.step.positiveGoal? = some goal) (after : start ≤ position) :
    turn cx task failed start ⟨position + 1, .backtracking, cursors⟩ =
      some <$> pull cx goal position cursors := by
  rw [turn, if_neg (Nat.ne_of_gt (Nat.lt_succ_of_le after)), Nat.add_sub_cancel, body,
    Option.bind_some, positive]

/-- **A lookup that is reached** is as if gone back to, once its cursor is there. -/
theorem turn_lookup (body : task.clause.body[position]? = some slot)
    (positive : slot.step.positiveGoal? = some goal) (after : start ≤ position) :
    turn cx task failed start ⟨position, .advancing, cursors⟩ =
      lookUp cx task slot goal (task.clause.body.drop (position + 1)) >>= fun cursor =>
        turn cx task failed start ⟨position + 1, .backtracking, cursors.set position cursor⟩ := by
  simp only [turn_back body positive after]
  rw [turn, body]
  dsimp only
  rw [positive]

theorem leads_lookup {cursor : Option (List Tuple)}
    (body : task.clause.body[position]? = some slot)
    (positive : slot.step.positiveGoal? = some goal) (after : start ≤ position)
    (found : lookUp cx task slot goal (task.clause.body.drop (position + 1)) w = .ok cursor w') :
    Leads cx task failed start ⟨position, .advancing, cursors⟩ w []
      ⟨position + 1, .backtracking, cursors.set position cursor⟩ w' := by
  refine ⟨0, fun turns => ?_⟩
  have same : walk cx task failed start turns ⟨position, .advancing, cursors⟩ w =
      walk cx task failed start turns
        ⟨position + 1, .backtracking, cursors.set position cursor⟩ w' := by
    cases turns with
    | zero => rfl
    | succ turns =>
      rw [walk, walk, turn_lookup body positive after, Outcome.bind_of_ok found,
        turnReports_of_getElem? body, turnReports_backtracking]
  rw [Nat.add_zero, same]
  cases walk cx task failed start turns _ w' <;> rfl

/-- **A lookup that finds** as many tuples as are left when the other batches are handed on. -/
theorem lookUp_eq : lookUp cx task slot goal rest w =
    match (do
      let tuples ← within slot.step.blame (matching cx task slot goal)
      shareOut cx task slot goal rest tuples : Work (List Tuple)) w with
    | .ok first w => .ok (if first.isEmpty then none else some first) w
    | .error e w => .error e w := by
  have split : lookUp cx task slot goal rest = (do
      let tuples ← within slot.step.blame (matching cx task slot goal)
      shareOut cx task slot goal rest tuples : Work (List Tuple)) >>= fun first =>
        pure (if first.isEmpty then none else some first) := by
    rw [bind_assoc]
    rfl
  rw [split]
  split
  · next h => exact Outcome.bind_of_ok h
  · next h => exact Outcome.bind_of_error h

/-! ## The search -/

/-- **Work after work** is tracked if both are. -/
theorem Tracks.bind {position' : Nat} {x : Work Unit} {f : Unit → Work Unit} {log : Log}
    (h : Tracks cx task failed start place w position' reports (x w)) (le : position ≤ position')
    (hf : ∀ {cursors w'}, cursors.length = place.cursors.length →
      (∀ i < position', cursors[i]? = place.cursors[i]?) →
      Tracks cx task failed start ⟨position', .backtracking, cursors⟩ w' position (log w')
        (f () w')) :
    Tracks cx task failed start place w position (reports ++ reportsAfter x (fun _ => log) w)
      ((x >>= f) w) := by
  rw [reportsAfter]
  cases hx : x w with
  | ok u v =>
    rw [hx] at h
    obtain ⟨cursors, same, length, leads⟩ := h
    rw [Outcome.bind_of_ok hx]
    exact leads.tracks (fun i hi => same i (hi.trans_le le)) length (hf length same)
  | error e v =>
    rw [hx] at h
    rw [Outcome.bind_of_error hx]
    exact (List.append_nil reports).symm ▸ h

/-- A tuple is always taken. -/
theorem exists_take (cx : Context) (goal : Goal) (tuple : Tuple) (w : Worker) :
    ∃ v, take cx goal tuple w = .ok () v := by
  cases h : take cx goal tuple w with
  | ok u v => exact ⟨v, rfl⟩
  | error e v => exact (Sure.take w e v h).elim

/-- **The first tuple** is taken and searched on, and then the others. -/
theorem searchEach_of_take {tuple : Tuple} {tuples : List Tuple}
    (taken : take cx goal tuple w = .ok () w') :
    searchEach cx task failed goal rest (tuple :: tuples) w =
      (search cx task (conclude cx task failed) rest >>= fun _ =>
        searchEach cx task failed goal rest tuples) w' := by
  change ((do take cx goal tuple; search cx task (conclude cx task failed) rest) >>=
    fun _ => searchEach cx task failed goal rest tuples) w = _
  rw [bind_assoc, Outcome.bind_of_ok taken]

theorem resumeReports_of_take {tuple : Tuple} {tuples : List Tuple}
    (taken : take cx goal tuple w = .ok () w') :
    resumeReports cx task failed goal rest (tuple :: tuples) w =
      searchReports cx task failed rest w' ++
        reportsAfter (search cx task (conclude cx task failed) rest)
          (fun _ => resumeReports cx task failed goal rest tuples) w' := by
  change reportsAfter (take cx goal tuple) (fun _ => searchReports cx task failed rest) w ++
    reportsAfter (do take cx goal tuple; search cx task (conclude cx task failed) rest)
      (fun _ => resumeReports cx task failed goal rest tuples) w = _
  simp only [reportsAfter, taken, Outcome.bind_of_ok taken]

/-- **Where the cursor has run dry**, the walk goes further back. -/
theorem leads_dry (body : task.clause.body[position]? = some slot)
    (positive : slot.step.positiveGoal? = some goal) (after : start ≤ position)
    (dry : (cursors[position]?.join).getD [] = []) :
    Leads cx task failed start ⟨position + 1, .backtracking, cursors⟩ w []
      ⟨position, .backtracking, cursors.set position none⟩ w := by
  refine turnReports_backtracking ▸ leads_of_turn ?_
  rw [turn_back body positive after, pull]
  rcases h : cursors[position]?.join with _ | (_ | ⟨tuple, tuples⟩)
  · rfl
  · rfl
  · rw [h] at dry
    cases dry

/-- **Where there is another tuple**, the walk goes forward with it. -/
theorem leads_pulled {tuple : Tuple} {tuples : List Tuple}
    (body : task.clause.body[position]? = some slot)
    (positive : slot.step.positiveGoal? = some goal) (after : start ≤ position)
    (left : (cursors[position]?.join).getD [] = tuple :: tuples)
    (taken : take cx goal tuple w = .ok () w') :
    Leads cx task failed start ⟨position + 1, .backtracking, cursors⟩ w []
      ⟨position + 1, .advancing, cursors.set position (some tuples)⟩ w' := by
  refine turnReports_backtracking ▸ leads_of_turn ?_
  rw [turn_back body positive after, pull]
  rcases h : cursors[position]?.join with _ | ts
  · rw [h] at left
    cases left
  · rw [h] at left
    obtain rfl : ts = tuple :: tuples := left
    change (some <$> (take cx goal tuple >>= fun _ => pure _ : Work Place)) w = _
    rw [map_bind, Outcome.bind_of_ok taken]
    rfl

/-- **Going back to a lookup again and again** is a loop over the tuples left in its cursor. -/
theorem tracks_searchEach (body : task.clause.body[position]? = some slot)
    (positive : slot.step.positiveGoal? = some goal) (after : start ≤ position)
    (next : ∀ {w cursors}, cursors.length = task.clause.body.length →
      Tracks cx task failed start ⟨position + 1, .advancing, cursors⟩ w (position + 1)
        (searchReports cx task failed rest w)
        (search cx task (conclude cx task failed) rest w))
    {tuples : List Tuple} (length : cursors.length = task.clause.body.length)
    (left : (cursors[position]?.join).getD [] = tuples) :
    Tracks cx task failed start ⟨position + 1, .backtracking, cursors⟩ w position
      (resumeReports cx task failed goal rest tuples w)
      (searchEach cx task failed goal rest tuples w) := by
  induction tuples generalizing w cursors with
  | nil =>
    exact ⟨cursors.set position none, fun i hi => List.getElem?_set_ne (Nat.ne_of_gt hi),
      List.length_set, leads_dry body positive after left⟩
  | cons tuple tuples ih =>
    obtain ⟨v, taken⟩ := exists_take cx goal tuple w
    rw [searchEach_of_take taken, resumeReports_of_take taken]
    refine (leads_pulled body positive after left taken).tracks
      (fun i hi => List.getElem?_set_ne (Nat.ne_of_gt hi)) List.length_set
      ((next (List.length_set.trans length)).bind (Nat.le_succ position) ?_)
    intro cursors' w' length' same
    refine ih (length'.trans (List.length_set.trans length)) ?_
    have inside := length ▸ (List.getElem?_eq_some_iff.1 body).1
    rw [same position (Nat.lt_succ_self position), List.getElem?_set_self inside]
    rfl

/-- **A lookup** is tracked if the search over the rest of the body is. -/
theorem tracks_lookup (body : task.clause.body[position]? = some slot)
    (beyond : task.clause.body.drop (position + 1) = rest)
    (positive : slot.step.positiveGoal? = some goal) (after : start ≤ position)
    (next : ∀ {w cursors}, cursors.length = task.clause.body.length →
      Tracks cx task failed start ⟨position + 1, .advancing, cursors⟩ w (position + 1)
        (searchReports cx task failed rest w)
        (search cx task (conclude cx task failed) rest w))
    (length : cursors.length = task.clause.body.length) :
    Tracks cx task failed start ⟨position, .advancing, cursors⟩ w position
      (searchReports cx task failed (slot :: rest) w)
      (search cx task (conclude cx task failed) (slot :: rest) w) := by
  have found : lookUp cx task slot goal rest w = _ := lookUp_eq
  have work : search cx task (conclude cx task failed) (slot :: rest) = (do
      let tuples ← within slot.step.blame (matching cx task slot goal)
      shareOut cx task slot goal rest tuples : Work (List Tuple)) >>= fun first =>
        searchEach cx task failed goal rest first := by
    rw [search, positive, bind_assoc]
  have log : searchReports cx task failed (slot :: rest) = reportsAfter (do
      let tuples ← within slot.step.blame (matching cx task slot goal)
      shareOut cx task slot goal rest tuples) (resumeReports cx task failed goal rest) := by
    rw [searchReports, positive]
    rfl
  rw [work, log, reportsAfter]
  split at found
  · next first w' h =>
    rw [h, Outcome.bind_of_ok h]
    refine (leads_lookup body positive after (beyond ▸ found)).tracks
      (fun i hi => List.getElem?_set_ne (Nat.ne_of_gt hi)) List.length_set
      (tracks_searchEach body positive after next (List.length_set.trans length) ?_)
    have inside := length ▸ (List.getElem?_eq_some_iff.1 body).1
    rw [List.getElem?_set_self inside]
    cases first <;> rfl
  · next e w' h =>
    rw [h, Outcome.bind_of_error h]
    refine turnReports_of_getElem? body ▸ ends_of_turn_error ?_
    rw [turn_lookup body positive after, beyond, Outcome.bind_of_error found]

/-- **Any other step** is tracked if the search over the rest of the body is. -/
theorem tracks_perform (body : task.clause.body[position]? = some slot)
    (other : slot.step.positiveGoal? = none) (after : start ≤ position)
    (next : ∀ {w cursors}, cursors.length = task.clause.body.length →
      Tracks cx task failed start ⟨position + 1, .advancing, cursors⟩ w (position + 1)
        (searchReports cx task failed rest w)
        (search cx task (conclude cx task failed) rest w))
    (length : cursors.length = task.clause.body.length) :
    Tracks cx task failed start ⟨position, .advancing, cursors⟩ w position
      (searchReports cx task failed (slot :: rest) w)
      (search cx task (conclude cx task failed) (slot :: rest) w) := by
  have taken : turn cx task failed start ⟨position, .advancing, cursors⟩ =
      within slot.step.blame (perform cx slot) >>= fun goesOn =>
        if goesOn then pure (some ⟨position + 1, .advancing, cursors⟩)
        else pure (some ⟨position, .backtracking, cursors⟩) := by
    rw [turn, body]
    dsimp only
    rw [other]
  have work : search cx task (conclude cx task failed) (slot :: rest) =
      within slot.step.blame (perform cx slot) >>= fun goesOn =>
        if goesOn then search cx task (conclude cx task failed) rest else pure () := by
    rw [search, other]
  have log : searchReports cx task failed (slot :: rest) =
      reportsAfter (within slot.step.blame (perform cx slot)) fun goesOn =>
        if goesOn then searchReports cx task failed rest else fun _ => [] := by
    rw [searchReports, other]
  rw [work, log, reportsAfter]
  cases h : within slot.step.blame (perform cx slot) w with
  | ok goesOn w' =>
    rw [Outcome.bind_of_ok h]
    cases goesOn with
    | true =>
      have forward : Leads cx task failed start ⟨position, .advancing, cursors⟩ w []
          ⟨position + 1, .advancing, cursors⟩ w' :=
        turnReports_of_getElem? body ▸
          leads_of_turn (by rw [taken, Outcome.bind_of_ok h]; rfl)
      exact forward.tracks (fun _ _ => rfl) rfl ((next length).back body other after)
    | false =>
      exact ⟨cursors, fun _ _ => rfl, rfl, turnReports_of_getElem? body ▸
        leads_of_turn (by rw [taken, Outcome.bind_of_ok h]; rfl)⟩
  | error e w' =>
    rw [Outcome.bind_of_error h]
    exact turnReports_of_getElem? body ▸
      ends_of_turn_error (by rw [taken, Outcome.bind_of_error h])

/-- **Walking forward is searching.** -/
theorem tracks_search (body : task.clause.body.drop position = slots) (after : start ≤ position)
    (length : cursors.length = task.clause.body.length) :
    Tracks cx task failed start ⟨position, .advancing, cursors⟩ w position
      (searchReports cx task failed slots w)
      (search cx task (conclude cx task failed) slots w) := by
  induction slots generalizing position w cursors with
  | nil => exact tracks_conclude (List.drop_eq_nil_iff.1 body)
  | cons slot rest ih =>
    have here : task.clause.body[position]? = some slot := by
      rw [← List.head?_drop, body]
      rfl
    have beyond : task.clause.body.drop (position + 1) = rest := by
      rw [← List.tail_drop, body]
      rfl
    have next {w} {cursors : List (Option (List Tuple))}
        (length : cursors.length = task.clause.body.length) :=
      ih (w := w) beyond (after.trans (Nat.le_succ position)) length
    cases positive : slot.step.positiveGoal? with
    | some goal => exact tracks_lookup here beyond positive after next length
    | none => exact tracks_perform here positive after next length

end Work

end Datalog
