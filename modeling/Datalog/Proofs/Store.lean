import Datalog.Meaning.Facts
import Datalog.Proofs.Assoc
import Datalog.Proofs.Outcome

/-!
# Proofs/Store — an index answers what a scan would

A store that was built by adding tuples and registering indices has every tuple in every index of
its relation (`Store.Built.indexed`).  So a lookup finds the tuples that agree with the key, and
which index it is told to use makes no difference (`Store.Indexed.mem_lookup_iff`).
-/

namespace Datalog

/-- Agreement at the first position and at the others. -/
theorem Key.agrees_cons_iff {k : Option Term} {ks : Key} {z : Term} {zs : Tuple} :
    Key.agrees (k :: ks) (z :: zs) = true ↔ (∀ x, k = some x → x = z) ∧ Key.agrees ks zs = true := by
  cases k <;> simp [Key.agrees]

/-- **Agreement, position by position.** -/
theorem Key.agrees_iff : ∀ {key : Key} {t : Tuple}, key.agrees t = true ↔
    ∀ (p : Nat) (x y : Term), key[p]? = some (some x) → t[p]? = some y → x = y
  | [], _ => by simp [Key.agrees]
  | _ :: _, [] => by simp [Key.agrees]
  | k :: ks, z :: zs => by
    rw [Key.agrees_cons_iff, Key.agrees_iff]
    constructor
    · rintro ⟨first, later⟩ (_ | p) x y hx hy
      · simp only [List.getElem?_cons_zero, Option.some.injEq] at hx hy
        exact hy ▸ first x hx
      · exact later p x y hx hy
    · exact fun h => ⟨fun x hx => h 0 x z (by simp [hx]) rfl, fun p => h (p + 1)⟩

namespace Index

variable {index index' : Index} {tuple t : Tuple} {positions : List Nat} {values : Tuple}

/-- The tuples that an index has for the values. -/
def group (index : Index) (values : Tuple) : List Tuple := (index.groups.get? values).getD []

/-- **The index covers the tuples**: it has each of them where the tuple's own values say, and no
other. -/
def Covers (index : Index) (tuples : List Tuple) : Prop :=
  (∀ t ∈ tuples, ∃ values, project t index.positions = .ok values) ∧
    ∀ values t, t ∈ index.group values ↔ t ∈ tuples ∧ project t index.positions = .ok values

theorem covers_nil : Covers { positions } [] :=
  ⟨nofun, fun values t => by simp [group, Assoc.get?_emptyCollection]⟩

/-- **Inserting** puts the tuple at the end of the group that its values say. -/
theorem insert_ok (ok : index.insert tuple = .ok index') :
    index'.positions = index.positions ∧ ∃ values,
      project tuple index.positions = .ok values ∧ ∀ values', index'.group values' =
        if values' = values then index.group values' ++ [tuple] else index.group values' := by
  obtain ⟨values, hvalues, ok⟩ := Outcome.except_bind_ok_iff.1 ok
  cases ok
  refine ⟨rfl, values, hvalues, fun values' => ?_⟩
  rw [group, Assoc.get?_alter]
  split
  · next h =>
    subst h
    simp [group]
  · next h => rw [if_neg (Ne.symm h), group]

theorem Covers.insert {tuples : List Tuple} (h : index.Covers tuples)
    (ok : index.insert tuple = .ok index') : index'.Covers (tuples ++ [tuple]) := by
  obtain ⟨positions, values, hvalues, hgroup⟩ := insert_ok ok
  refine ⟨List.forall_mem_append.2 ⟨positions ▸ h.1, List.forall_mem_singleton.2
    ⟨values, positions ▸ hvalues⟩⟩, fun values' t => ?_⟩
  rw [hgroup, positions, List.mem_append, List.mem_singleton, or_and_right, ← h.2]
  split
  · next same =>
    subst same
    rw [List.mem_append, List.mem_singleton]
    refine or_congr_right ⟨?_, And.left⟩
    rintro rfl
    exact ⟨rfl, hvalues⟩
  · next other =>
    refine (or_iff_left ?_).symm
    rintro ⟨rfl, hp⟩
    exact other (Except.ok.inj (hp.symm.trans hvalues))

/-- **One tuple more** is inserted into the index of the others. -/
theorem build_append_singleton (positions : List Nat) (tuples : List Tuple) (t : Tuple) :
    build positions (tuples ++ [t]) =
      build positions tuples >>= fun index => index.insert t := by
  simp only [build, List.foldlM_append, List.foldlM_cons, List.foldlM_nil, bind_pure]

/-- **Building, tuple by tuple**: what every insertion keeps holds of the index that is built. -/
theorem build_induction {P : Index → List Tuple → Prop} (start : P { positions } [])
    (step : ∀ index index' tuples tuple, P index tuples → index.insert tuple = .ok index' →
      P index' (tuples ++ [tuple]))
    {tuples : List Tuple} (ok : build positions tuples = .ok index) : P index tuples := by
  induction tuples using List.reverseRecOn generalizing index with
  | nil =>
    cases ok
    exact start
  | append_singleton ts t ih =>
    rw [build_append_singleton] at ok
    obtain ⟨index', rest, ok⟩ := Outcome.except_bind_ok_iff.1 ok
    exact step _ _ _ _ (ih rest) ok

/-- An index of the tuples covers them. -/
theorem covers_build {tuples : List Tuple} (ok : build positions tuples = .ok index) :
    index.Covers tuples :=
  build_induction covers_nil (fun _ _ _ _ covers ok => covers.insert ok) ok

/-- What a tuple that agrees has at the positions is what the key fixes there. -/
theorem eq_of_agrees {key : Key} {chosen : Tuple} (agrees : key.agrees t = true)
    (hselect : select? key positions = some chosen) (hproject : project t positions = .ok values) :
    chosen = values := by
  rw [select?, Outcome.mapM_eq_some_iff] at hselect
  induction hselect generalizing values with
  | nil =>
    cases hproject
    rfl
  | @cons p x ps xs hx _ ih =>
    rw [project] at hproject
    cases hy : t[p]? with
    | none =>
      rw [hy] at hproject
      cases hproject
    | some y =>
      rw [hy] at hproject
      obtain ⟨ys, hys, hproject⟩ := Outcome.except_bind_ok_iff.1 hproject
      cases hproject
      rw [Key.agrees_iff.1 agrees p x y (Option.join_eq_some_iff.1 hx) hy, ih hys]

/-- A tuple that has the positions can be inserted. -/
theorem exists_insert (h : ∀ p ∈ index.positions, p < tuple.length) :
    ∃ index', index.insert tuple = .ok index' := by
  have exists_project : ∀ {positions : List Nat}, (∀ p ∈ positions, p < tuple.length) →
      ∃ values, project tuple positions = .ok values := by
    intro positions
    induction positions with
    | nil => exact fun _ => ⟨[], rfl⟩
    | cons p ps ih =>
      intro h
      obtain ⟨values, hvalues⟩ := ih fun q hq => h q (List.mem_cons_of_mem _ hq)
      have hp := h p (List.mem_cons_self ..)
      refine ⟨tuple[p] :: values, ?_⟩
      rw [project, List.getElem?_eq_getElem hp, hvalues]
      rfl
  obtain ⟨values, hvalues⟩ := exists_project h
  exact ⟨_, Outcome.except_bind_ok_iff.2 ⟨values, hvalues, rfl⟩⟩

theorem positions_build {tuples : List Tuple} (ok : build positions tuples = .ok index) :
    index.positions = positions :=
  build_induction (P := fun index _ => index.positions = positions) rfl
    (fun _ _ _ _ same ok => (insert_ok ok).1.trans same) ok

/-- An index on positions that all tuples have can be built. -/
theorem exists_build {tuples : List Tuple}
    (h : ∀ t ∈ tuples, ∀ p ∈ positions, p < t.length) :
    ∃ index, build positions tuples = .ok index := by
  induction tuples using List.reverseRecOn with
  | nil => exact ⟨_, rfl⟩
  | append_singleton ts t ih =>
    obtain ⟨index, hindex⟩ := ih fun u hu => h u (List.mem_append_left _ hu)
    have fits : ∀ p ∈ index.positions, p < t.length := fun p hp =>
      h t (List.mem_append_right _ (List.mem_singleton_self t)) p (positions_build hindex ▸ hp)
    obtain ⟨index', hinsert⟩ := exists_insert fits
    refine ⟨index', ?_⟩
    rw [build_append_singleton]
    exact Outcome.except_bind_ok_iff.2 ⟨index, hindex, hinsert⟩

end Index

/-! ## Extents -/

namespace Extent

variable {e : Extent} {tuple t : Tuple}

/-- Every index covers the tuples. -/
def Indexed (e : Extent) : Prop := ∀ i ∈ e.indices, i.Covers e.tuples

/-- **A lookup finds the tuples that agree with the key**, whichever index it uses. -/
theorem Indexed.mem_lookup_iff (h : e.Indexed) {key : Key} {n : IndexNumber} :
    t ∈ e.lookup key n ↔ t ∈ e.tuples ∧ key.agrees t = true := by
  rw [lookup]
  split
  · next i hi =>
    obtain ⟨n, _, hn⟩ := Option.bind_eq_some_iff.1 hi
    have covers := h i (List.mem_of_getElem? hn)
    split
    · next values hvalues =>
      rw [List.mem_filter]
      refine and_congr_left fun agrees => ?_
      rw [← Index.group, covers.2]
      refine and_iff_left_iff_imp.2 fun ht => ?_
      obtain ⟨values', hvalues'⟩ := covers.1 t ht
      rw [hvalues', Index.eq_of_agrees agrees hvalues hvalues']
    · exact List.mem_filter
  · exact List.mem_filter

/-- **Adding a tuple that fits** inserts it into every index. -/
theorem insertAll_ok : ∀ {indices indices' : List Index},
    insertAll tuple indices = (indices', none) →
      List.Forall₂ (fun i i' => i.insert tuple = .ok i') indices indices'
  | [], _, h => by
    cases h
    exact .nil
  | i :: is, _, h => by
    rw [insertAll] at h
    cases hi : i.insert tuple with
    | error misfit =>
      rw [hi] at h
      cases h
    | ok i' =>
      rw [hi] at h
      obtain ⟨rfl, hnone⟩ := Prod.mk.inj h
      exact .cons hi (insertAll_ok (Prod.ext rfl hnone))

/-- **Adding a tuple changes no index's positions**, whether or not every index can take it. -/
theorem positions_insertAll : ∀ {indices : List Index},
    (insertAll tuple indices).1.map Index.positions = indices.map Index.positions
  | [] => rfl
  | i :: is => by
    rw [insertAll]
    cases hi : i.insert tuple with
    | error misfit => rfl
    | ok j =>
      dsimp only
      rw [List.map_cons, List.map_cons, positions_insertAll, (Index.insert_ok hi).1]

/-- Indices on positions that the tuple has can all take it. -/
theorem insertAll_none : ∀ {indices : List Index},
    (∀ i ∈ indices, ∀ p ∈ i.positions, p < tuple.length) → (insertAll tuple indices).2 = none
  | [], _ => rfl
  | i :: is, h => by
    obtain ⟨j, hj⟩ := Index.exists_insert (h i (List.mem_cons_self ..))
    rw [insertAll, hj]
    exact insertAll_none fun k hk => h k (List.mem_cons_of_mem _ hk)

end Extent

namespace Store

variable {s s' : Store} {r r' : Relation} {tuple t : Tuple}

theorem contains_iff : s.contains r t = true ↔ s.Holds r t := decide_eq_true_iff

/-! ## Adding -/

/-- The extents after one has been replaced. -/
theorem extent_put (s : Store) (r r' : Relation) (e : Extent) :
    Store.extent (s.put r e) r' = if r = r' then e else s.extent r' := by
  rw [Store.extent, Assoc.get?_put]
  split
  · rfl
  · rfl

/-- A tuple that is there changes nothing. -/
theorem add_of_mem (h : tuple ∈ (s.extent r).tuples) : s.add r tuple = (s, .present) := by
  rw [Store.add]
  exact if_pos h

/-- **A tuple that is not there** comes last, and goes into every index up to the first that
cannot take it. -/
theorem add_of_notMem (h : tuple ∉ (s.extent r).tuples) : s.add r tuple =
    (s.put r { tuples := (s.extent r).tuples ++ [tuple]
               indices := (Extent.insertAll tuple (s.extent r).indices).1 },
      match (Extent.insertAll tuple (s.extent r).indices).2 with
      | none => .added
      | some m => .misfit m) := by
  rw [Store.add]
  exact if_neg h

theorem add_ne_present (h : tuple ∉ (s.extent r).tuples) : (s.add r tuple).2 ≠ .present := by
  rw [add_of_notMem h]
  dsimp only
  split <;> exact nofun

/-- A fact is present exactly if the store has it. -/
theorem add_eq_present_iff : (s.add r tuple).2 = .present ↔ s.Holds r tuple := by
  refine ⟨fun h => ?_, fun h => by rw [add_of_mem h]⟩
  by_contra new
  exact add_ne_present new h

theorem tuples_add (h : tuple ∉ (s.extent r).tuples) :
    ((s.add r tuple).1.extent r').tuples =
      if r = r' then (s.extent r').tuples ++ [tuple] else (s.extent r').tuples := by
  rw [add_of_notMem h, extent_put]
  split
  · next hr => rw [hr]
  · rfl

/-- **A new tuple that fits** goes into every index. -/
theorem insertAll_of_fits (h : tuple ∉ (s.extent r).tuples)
    (fits : ∀ m, (s.add r tuple).2 ≠ .misfit m) :
    List.Forall₂ (fun i i' => i.insert tuple = .ok i') (s.extent r).indices
      (Extent.insertAll tuple (s.extent r).indices).1 := by
  rw [add_of_notMem h] at fits
  cases hmisfit : (Extent.insertAll tuple (s.extent r).indices).2 with
  | none => exact Extent.insertAll_ok (Prod.ext rfl hmisfit)
  | some m => exact (fits m (by rw [hmisfit])).elim

/-- **What is stored once a tuple has been added.** -/
theorem holds_add_iff : Holds (s.add r tuple).1 r' t ↔ Holds s r' t ∨ (r' = r ∧ t = tuple) := by
  by_cases h : tuple ∈ (s.extent r).tuples
  · rw [add_of_mem h]
    refine ⟨.inl, fun ht => ht.elim id ?_⟩
    rintro ⟨rfl, rfl⟩
    exact h
  · rw [Holds, Holds, tuples_add h]
    split
    · next hr => simp [hr]
    · next hr =>
      refine ⟨.inl, fun ht => ht.resolve_right ?_⟩
      rintro ⟨rfl, _⟩
      exact hr rfl

/-- Adding tuples one by one. -/
theorem holds_foldl_add {tuples : List Tuple} :
    Holds (tuples.foldl (fun s tuple => (s.add r tuple).1) s) r' t ↔
      Holds s r' t ∨ (r' = r ∧ t ∈ tuples) := by
  induction tuples generalizing s with
  | nil => simp
  | cons tuple tuples ih =>
    rw [List.foldl_cons, ih, holds_add_iff, List.mem_cons]
    tauto

/-- Adds the facts one by one. -/
def addAll (s : Store) (facts : List (Relation × Tuple)) : Store :=
  facts.foldl (fun s f => (s.add f.1 f.2).1) s

theorem holds_addAll_iff {facts : List (Relation × Tuple)} :
    (s.addAll facts).Holds r t ↔ s.Holds r t ∨ (r, t) ∈ facts := by
  induction facts generalizing s with
  | nil => simp [addAll]
  | cons f facts ih =>
    rw [addAll, List.foldl_cons]
    refine ih.trans ?_
    simp only [holds_add_iff, List.mem_cons, Prod.ext_iff, or_assoc]

/-- **Registering** needs no index, finds the one there is, or builds a new one. -/
theorem register_cases {positions : List Nat} {n : IndexNumber}
    (ok : s.register r positions = .ok (s', n)) :
    (positions = [] ∧ s' = s ∧ n = none) ∨ (positions ≠ [] ∧
      ((∃ k, (s.extent r).indices.findIdx? (·.positions == positions) = some k ∧
          s' = s ∧ n = some k) ∨
        ∃ index, (s.extent r).indices.findIdx? (·.positions == positions) = none ∧
          Index.build positions (s.extent r).tuples = .ok index ∧
          s' = s.put r { s.extent r with indices := (s.extent r).indices ++ [index] } ∧
          n = some (s.extent r).indices.length)) := by
  rw [register] at ok
  split at ok
  · next hempty =>
    cases ok
    exact .inl ⟨List.isEmpty_iff.1 hempty, rfl, rfl⟩
  · next hempty =>
    refine .inr ⟨fun h => hempty (List.isEmpty_iff.2 h), ?_⟩
    dsimp only at ok
    split at ok
    · next k hk =>
      cases ok
      exact .inl ⟨k, hk, rfl, rfl⟩
    · next hnone =>
      obtain ⟨index, hindex, ok⟩ := Outcome.except_bind_ok_iff.1 ok
      cases ok
      exact .inr ⟨index, hnone, hindex, rfl, rfl⟩

/-- **An index that cannot be registered** is on a position that some stored tuple lacks. -/
theorem exists_of_register {positions : List Nat} {m : Misfit}
    (misfit : s.register r positions = .error m) :
    ∃ t p, s.Holds r t ∧ p ∈ positions ∧ t.length ≤ p := by
  by_contra fits
  push Not at fits
  obtain ⟨index, built⟩ := Index.exists_build fun t ht p hp => fits t p ht hp
  rw [register] at misfit
  split at misfit
  · cases misfit
  · dsimp only at misfit
    split at misfit
    · cases misfit
    · rw [built] at misfit
      cases misfit

/-- What a store holds is not changed by a new index. -/
theorem holds_register_iff {positions : List Nat} {n : IndexNumber}
    (ok : s.register r positions = .ok (s', n)) : Holds s' r' t ↔ Holds s r' t := by
  obtain ⟨_, rfl, _⟩ | ⟨_, ⟨_, _, rfl, _⟩ | ⟨_, _, _, rfl, _⟩⟩ := register_cases ok
  · rfl
  · rfl
  · rw [Holds, Holds, extent_put]
    split
    · next hr => rw [hr]
    · rfl

/-! ## Indices -/

/-- Every relation's indices cover its tuples. -/
def Indexed (s : Store) : Prop := ∀ r, (s.extent r).Indexed

/-- **A lookup finds the stored tuples that agree with the key.** -/
theorem Indexed.mem_lookup_iff (h : s.Indexed) {key : Key} {n : IndexNumber} :
    t ∈ s.lookup r key n ↔ s.Holds r t ∧ key.agrees t = true :=
  (h r).mem_lookup_iff

/-- A tuple of the key's length that agrees with a key that fixes everything is that key. -/
theorem eq_of_agrees {key : Key} {tuple : Tuple} (hkey : key.mapM id = some tuple)
    (hlen : t.length = key.length) (agrees : key.agrees t = true) : t = tuple := by
  rw [Outcome.mapM_eq_some_iff] at hkey
  induction hkey generalizing t with
  | nil => exact List.length_eq_zero_iff.1 hlen
  | @cons k x key tuple hk _ ih =>
    obtain rfl : k = some x := hk
    cases t with
    | nil => cases hlen
    | cons y t =>
      have agrees : x = y ∧ Key.agrees key t = true := by simpa [Key.agrees] using agrees
      rw [agrees.1, ih (Nat.succ.inj hlen) agrees.2]

/-- A tuple agrees with the key that asks for it. -/
theorem agrees_of_mapM {key : Key} {tuple : Tuple} (hkey : key.mapM id = some tuple) :
    key.agrees tuple = true := by
  rw [Outcome.mapM_eq_some_iff] at hkey
  induction hkey with
  | nil => rfl
  | @cons k x key tuple hk _ ih =>
    obtain rfl : k = some x := hk
    simpa [Key.agrees] using ih

/-- **Some stored tuple agrees with the key**, if all are as long as the key. -/
theorem Indexed.hasMatch_iff (h : s.Indexed) {key : Key} {n : IndexNumber}
    (hlen : ∀ t, s.Holds r t → t.length = key.length) :
    s.hasMatch r key n = true ↔ ∃ t, s.Holds r t ∧ key.agrees t = true := by
  rw [hasMatch]
  split
  · next tuple hkey =>
    rw [contains_iff, Holds]
    refine ⟨fun ht => ⟨tuple, ht, agrees_of_mapM hkey⟩, ?_⟩
    rintro ⟨t, ht, agrees⟩
    exact eq_of_agrees hkey (hlen t ht) agrees ▸ ht
  · rw [Bool.not_eq_true', List.isEmpty_eq_false_iff_exists_mem]
    exact exists_congr fun t => h.mem_lookup_iff

theorem indexed_empty : Indexed ∅ := fun _ _ h => by cases h

theorem Indexed.put (h : s.Indexed) {e : Extent} (he : e.Indexed) : Indexed (s.put r e) := by
  intro r'
  rw [extent_put]
  split
  · exact he
  · exact h r'

/-- **Adding a tuple** keeps the indices complete, if all of them can take it. -/
theorem Indexed.add (h : s.Indexed) (fits : ∀ m, (s.add r tuple).2 ≠ .misfit m) :
    Indexed (s.add r tuple).1 := by
  by_cases hmem : tuple ∈ (s.extent r).tuples
  · rw [add_of_mem hmem]
    exact h
  · rw [add_of_notMem hmem]
    refine h.put fun i' hi' => ?_
    obtain ⟨i, hi, ok⟩ := Outcome.exists_of_forall₂ (insertAll_of_fits hmem fits).flip hi'
    exact (h r i hi).insert ok

theorem Indexed.register (h : s.Indexed) {positions : List Nat} {n : IndexNumber}
    (ok : s.register r positions = .ok (s', n)) : Indexed s' := by
  obtain ⟨_, rfl, _⟩ | ⟨_, ⟨_, _, rfl, _⟩ | ⟨index, _, hindex, rfl, _⟩⟩ := register_cases ok
  · exact h
  · exact h
  · refine h.put (List.forall_mem_append.2 ⟨h r, fun i hi => ?_⟩)
    obtain rfl := List.mem_singleton.1 hi
    exact Index.covers_build hindex

/-- **The stores there are**: tuples are added and indices registered, and none of it fails. -/
inductive Built : Store → Prop
  | empty : Built ∅
  | add {s : Store} {r : Relation} {tuple : Tuple} (h : Built s)
      (fits : ∀ m, (s.add r tuple).2 ≠ .misfit m) : Built (s.add r tuple).1
  | register {s s' : Store} {r : Relation} {positions : List Nat} {n : IndexNumber} (h : Built s)
      (ok : s.register r positions = .ok (s', n)) : Built s'

/-- **Where there are no indices** every tuple fits. -/
theorem Built.addAll {facts : List (Relation × Tuple)} (h : Built s)
    (bare : ∀ r, (s.extent r).indices = []) : Built (s.addAll facts) := by
  induction facts generalizing s with
  | nil => exact h
  | cons f facts ih =>
    have one : (∀ m, (s.add f.1 f.2).2 ≠ .misfit m) ∧
        ∀ r, ((s.add f.1 f.2).1.extent r).indices = [] := by
      by_cases hmem : f.2 ∈ (s.extent f.1).tuples
      · rw [add_of_mem hmem]
        exact ⟨nofun, bare⟩
      · rw [add_of_notMem hmem, bare]
        refine ⟨nofun, fun r => ?_⟩
        rw [extent_put]
        split
        · rfl
        · exact bare r
    exact ih (h.add one.1) one.2

/-- **The indices of a store cover its tuples.** -/
theorem Built.indexed (h : Built s) : s.Indexed := by
  induction h with
  | empty => exact indexed_empty
  | add _ fits ih => exact ih.add fits
  | register _ ok ih => exact ih.register ok

end Store

end Datalog
