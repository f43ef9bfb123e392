import Datalog.Proofs.Lockstep
import Datalog.Proofs.Positions
import Datalog.Store.Listing

/-!
# Proofs/Indices — an index too many is never noticed

An index that **traces** the tuples has in each group, in the order of the store, the tuples with
the values of that group (`Index.Traces`), so that a lookup through it is a scan.  Two stores are
told apart by their later indices alone (`Store.Like`) if they hold the same tuples in the same
order, have some first indices of each relation in common, and trace the tuples by all others.
They are read alike, and whatever is done to both of them keeps them so.
-/

namespace Datalog

/-! ## One index -/

namespace Index

variable {index index' : Index} {tuple : Tuple} {tuples : List Tuple} {positions : List Nat}

/-- **The index traces the tuples.** -/
structure Traces (index : Index) (tuples : List Tuple) : Prop where
  placed : ∀ t ∈ tuples, ∃ values, project t index.positions = .ok values
  filed : ∀ values, index.group values =
    tuples.filter fun t => project t index.positions = .ok values

theorem traces_nil : Traces { positions } [] := ⟨nofun, fun _ => rfl⟩

theorem Traces.insert (h : index.Traces tuples) (ok : index.insert tuple = .ok index') :
    index'.Traces (tuples ++ [tuple]) := by
  obtain ⟨positions, values, hvalues, hgroup⟩ := insert_ok ok
  refine ⟨List.forall_mem_append.2 ⟨positions ▸ h.placed, List.forall_mem_singleton.2
    ⟨values, positions ▸ hvalues⟩⟩, fun values' => ?_⟩
  rw [hgroup, positions, h.filed, List.filter_append, List.filter_singleton, hvalues]
  by_cases same : values' = values
  · simp [same]
  · have other : ¬(Except.ok values : Except Misfit Tuple) = .ok values' :=
      fun h => same (Except.ok.inj h).symm
    simp [same, other]

theorem traces_build (ok : build positions tuples = .ok index) : index.Traces tuples :=
  build_induction traces_nil (fun _ _ _ _ traces ok => traces.insert ok) ok

/-- **A group is filtered as all tuples are**: those that agree with a key have the values that it
fixes. -/
theorem Traces.filter_group (h : index.Traces tuples) {key : Key} {chosen : Tuple}
    (hselect : select? key index.positions = some chosen) :
    (index.group chosen).filter key.agrees = tuples.filter key.agrees := by
  rw [h.filed, List.filter_filter]
  refine List.filter_congr fun t ht => ?_
  obtain ⟨values, hvalues⟩ := h.placed t ht
  rw [Bool.and_eq_left_iff_imp]
  intro agrees
  rw [eq_of_agrees agrees hselect hvalues, hvalues]
  exact decide_eq_true rfl

theorem lt_of_project {values : Tuple} (ok : project tuple positions = .ok values) :
    ∀ p ∈ positions, p < tuple.length := by
  induction positions generalizing values with
  | nil => exact nofun
  | cons p ps ih =>
    rw [project] at ok
    split at ok
    · next x hx =>
      obtain ⟨xs, hxs, _⟩ := Outcome.except_bind_ok_iff.1 ok
      exact List.forall_mem_cons.2 ⟨(List.getElem?_eq_some_iff.1 hx).1, ih hxs⟩
    · cases ok

/-- Where there is an index, another one can be built. -/
theorem Traces.exists_build (h : index.Traces tuples) :
    ∃ index', build index.positions tuples = .ok index' :=
  Index.exists_build fun t ht =>
    have ⟨_, ok⟩ := h.placed t ht
    lt_of_project ok

end Index

/-- **The numbers stand for the same** if only the first `k` indices are told apart. -/
def IndexNumber.Like (k : Nat) (n n' : IndexNumber) : Prop :=
  n'.filter (· < k) = n.filter (· < k)

/-! ## One relation -/

namespace Extent

variable {e e' : Extent} {k : Nat} {n n' : IndexNumber} {tuple : Tuple} {tuples : List Tuple}
  {old new : List Index} {positions : List Nat}

/-- Indices that all trace the tuples. -/
def Traced (tuples : List Tuple) (indices : List Index) : Prop := ∀ i ∈ indices, i.Traces tuples

/-- **Told apart by their later indices alone**: the first `k` are the same. -/
def Like (k : Nat) (e e' : Extent) : Prop :=
  ∃ tuples old new new', old.length = k ∧ e = ⟨tuples, old ++ new⟩ ∧ e' = ⟨tuples, old ++ new'⟩ ∧
    Traced tuples new ∧ Traced tuples new'

theorem Like.tuples_eq (h : Like k e e') : e'.tuples = e.tuples := by
  obtain ⟨_, _, _, _, _, rfl, rfl, _⟩ := h
  rfl

/-- **Looking up through a later index is scanning.** -/
theorem lookup_filter (traced : Traced tuples new) (key : Key) (n : IndexNumber) :
    lookup ⟨tuples, old ++ new⟩ key n = lookup ⟨tuples, old⟩ key (n.filter (· < old.length)) := by
  cases n with
  | none => rfl
  | some a =>
    by_cases ha : a < old.length
    · have first : (some a).filter (· < old.length) = some a := by simp [ha]
      rw [first, lookup, lookup, Option.bind_some, Option.bind_some, List.getElem?_append_left ha]
    · have later : (some a).filter (· < old.length) = none := by
        simpa using Nat.le_of_not_lt ha
      rw [later, lookup, Option.bind_some, List.getElem?_append_right (Nat.le_of_not_lt ha)]
      split
      · next i hi =>
        split
        · next values hvalues =>
          exact (traced i (List.mem_of_getElem? hi)).filter_group hvalues
        · rfl
      · rfl

theorem Like.lookup_eq (h : Like k e e') (hn : IndexNumber.Like k n n') (key : Key) :
    e'.lookup key n' = e.lookup key n := by
  obtain ⟨tuples, old, new, new', rfl, rfl, rfl, traced, traced'⟩ := h
  rw [lookup_filter traced, lookup_filter traced', hn]

/-! ### Adding -/

theorem insertAll_append (fits : (insertAll tuple old).2 = none) :
    insertAll tuple (old ++ new) =
      ((insertAll tuple old).1 ++ (insertAll tuple new).1, (insertAll tuple new).2) := by
  induction old with
  | nil => rfl
  | cons i is ih =>
    rw [List.cons_append, insertAll, insertAll]
    rw [insertAll] at fits
    cases hi : i.insert tuple with
    | error misfit =>
      rw [hi] at fits
      cases fits
    | ok i' =>
      rw [hi] at fits
      dsimp only
      rw [ih fits]
      rfl

theorem forall₂_insertAll (fits : (insertAll tuple old).2 = none) :
    List.Forall₂ (fun i i' => i.insert tuple = .ok i') old (insertAll tuple old).1 :=
  insertAll_ok (Prod.ext rfl fits)

theorem Traced.insertAll (h : Traced tuples new) (fits : (insertAll tuple new).2 = none) :
    Traced (tuples ++ [tuple]) (Extent.insertAll tuple new).1 := by
  intro i' hi'
  obtain ⟨i, hi, ok⟩ := Outcome.exists_of_forall₂ (forall₂_insertAll fits).flip hi'
  exact (h i hi).insert ok

/-- The extent with one more tuple. -/
def add (e : Extent) (tuple : Tuple) : Extent :=
  ⟨e.tuples ++ [tuple], (insertAll tuple e.indices).1⟩

/-- **A tuple that all indices can take.** -/
theorem Like.add (h : Like k e e')
    (fits : ∀ i ∈ e.indices ++ e'.indices, ∀ p ∈ i.positions, p < tuple.length) :
    Like k (e.add tuple) (e'.add tuple) := by
  obtain ⟨tuples, old, new, new', rfl, rfl, rfl, traced, traced'⟩ := h
  have all {indices : List Index} (sub : indices ⊆ old ++ new ++ (old ++ new')) :
      (insertAll tuple indices).2 = none := insertAll_none fun i hi => fits i (sub hi)
  have old' := all fun i hi => List.mem_append_left _ (List.mem_append_left _ hi)
  refine ⟨tuples ++ [tuple], (insertAll tuple old).1, (insertAll tuple new).1,
    (insertAll tuple new').1, (forall₂_insertAll old').length_eq.symm, ?_, ?_,
    traced.insertAll (all fun i hi => List.mem_append_left _ (List.mem_append_right _ hi)),
    traced'.insertAll (all fun i hi => List.mem_append_right _ (List.mem_append_right _ hi))⟩
  · rw [Extent.add, insertAll_append old']
  · rw [Extent.add, insertAll_append old']

/-! ### Registering -/

/-- The index on the positions that the relation has, or a new one. -/
def register (e : Extent) (positions : List Nat) : Except Misfit (Extent × Nat) :=
  match e.indices.findIdx? (·.positions == positions) with
  | some n => .ok (e, n)
  | none => do
    let index ← Index.build positions e.tuples
    return ({ e with indices := e.indices ++ [index] }, e.indices.length)

/-- **Registering where the first indices do not do**: one of the later ones is found, or one is
built, and either way it traces the tuples. -/
theorem register_append (fresh : old.findIdx? (·.positions == positions) = none)
    (traced : Traced tuples new) :
    Outcome.Pair Eq (fun x (_ : Index) => old.length ≤ x.2 ∧
        ∃ later, x.1 = ⟨tuples, old ++ later⟩ ∧ Traced tuples later)
      (register ⟨tuples, old ++ new⟩ positions) (Index.build positions tuples) := by
  rw [register, List.findIdx?_append, fresh, Option.none_or]
  cases hn : new.findIdx? (·.positions == positions) with
  | none =>
    cases build : Index.build positions tuples with
    | error m => exact .error rfl
    | ok i =>
      refine .ok ⟨List.length_append ▸ Nat.le_add_right .., new ++ [i], ?_, ?_⟩
      · rw [List.append_assoc]
      · exact List.forall_mem_append.2 ⟨traced, List.forall_mem_singleton.2 (Index.traces_build build)⟩
  | some n =>
    obtain ⟨hlt, same, _⟩ := List.findIdx?_eq_some_iff_getElem.1 hn
    obtain ⟨i, build⟩ := (traced _ (List.getElem_mem hlt)).exists_build
    rw [eq_of_beq same] at build
    rw [build]
    exact .ok ⟨Nat.le_add_left .., new, rfl, traced⟩

theorem Like.register (h : Like k e e') (positions : List Nat) :
    Outcome.Pair Eq (fun x y => Like k x.1 y.1 ∧ IndexNumber.Like k (some x.2) (some y.2))
      (e.register positions) (e'.register positions) := by
  obtain ⟨tuples, old, new, new', rfl, rfl, rfl, traced, traced'⟩ := h
  cases first : old.findIdx? (·.positions == positions) with
  | some n =>
    rw [Extent.register, Extent.register, List.findIdx?_append, List.findIdx?_append, first]
    exact .ok ⟨⟨tuples, old, new, new', rfl, rfl, rfl, traced, traced'⟩, rfl⟩
  | none =>
    refine ((register_append first traced).trans (register_append first traced').symm).imp ?_
    rintro x y ⟨_, ⟨hle, later, hx, tracedx⟩, hle', later', hy, tracedy⟩
    refine ⟨⟨tuples, old, later, later', rfl, hx, hy, tracedx, tracedy⟩, ?_⟩
    simp [IndexNumber.Like, Option.filter, Nat.not_lt_of_le hle, Nat.not_lt_of_le hle']

/-! ### Further indices -/

/-- The second extent has further indices. -/
def Further (e e' : Extent) : Prop :=
  ∃ new, e' = { e with indices := e.indices ++ new } ∧ Traced e.tuples new

theorem Further.refl (e : Extent) : e.Further e := ⟨[], by rw [List.append_nil], nofun⟩

theorem Further.trans {e'' : Extent} (h : e.Further e') (h' : e'.Further e'') : e.Further e'' := by
  obtain ⟨new, rfl, traced⟩ := h
  obtain ⟨new', rfl, traced'⟩ := h'
  exact ⟨new ++ new', by rw [List.append_assoc], List.forall_mem_append.2 ⟨traced, traced'⟩⟩

theorem Further.like (h : e.Further e') : Like e.indices.length e e' := by
  obtain ⟨new, rfl, traced⟩ := h
  exact ⟨e.tuples, e.indices, [], new, rfl, by rw [List.append_nil], rfl, nofun, traced⟩

end Extent

/-! ## All relations -/

namespace Store

variable {s s' : Store} {k : Relation → Nat} {n n' : IndexNumber} {r : Relation} {tuple : Tuple}
  {positions : List Nat}

/-- **The second store has further indices**, and is otherwise the first. -/
def Further (s s' : Store) : Prop := ∀ r, (s.extent r).Further (s'.extent r)

theorem Further.refl (s : Store) : s.Further s := fun _ => .refl _

theorem Further.trans {s'' : Store} (h : s.Further s') (h' : s'.Further s'') : s.Further s'' :=
  fun r => (h r).trans (h' r)

theorem Further.register (ok : s.register r positions = .ok (s', n)) : s.Further s' := by
  obtain ⟨_, rfl, _⟩ | ⟨_, ⟨_, _, rfl, _⟩ | ⟨index, _, built, rfl, _⟩⟩ := register_cases ok
  · exact .refl _
  · exact .refl _
  · intro r'
    rw [extent_put]
    split
    · next hr =>
      subst hr
      exact ⟨[index], rfl, List.forall_mem_singleton.2 (Index.traces_build built)⟩
    · exact .refl _

/-- **Told apart by their later indices alone.** -/
def Like (k : Relation → Nat) (s s' : Store) : Prop :=
  ∀ r, Extent.Like (k r) (s.extent r) (s'.extent r)

theorem Further.like (h : s.Further s') : s.Like s.indexCount s' := fun r => (h r).like

namespace Like

/-! ### Reading -/

variable (h : Like k s s')
include h

theorem tuples_eq (r : Relation) : (s'.extent r).tuples = (s.extent r).tuples :=
  Extent.Like.tuples_eq (h r)

theorem contains_eq (r : Relation) (tuple : Tuple) : s'.contains r tuple = s.contains r tuple := by
  rw [contains, contains, h.tuples_eq]

theorem lookup_eq (hn : IndexNumber.Like (k r) n n') (key : Key) :
    s'.lookup r key n' = s.lookup r key n :=
  Extent.Like.lookup_eq (h r) hn key

/-- Whatever the order of the listing, it is the same for both. -/
theorem listed_eq (hn : IndexNumber.Like (k r) n n') (l : Listing) (key : Key) :
    l.lookup s' r key n' = l.lookup s r key n := by
  rw [Listing.lookup, Listing.lookup, h.lookup_eq hn, h.tuples_eq]

theorem hasMatch_eq (hn : IndexNumber.Like (k r) n n') (key : Key) :
    s'.hasMatch r key n' = s.hasMatch r key n := by
  rw [hasMatch, hasMatch, h.lookup_eq hn]
  split
  · exact h.contains_eq r _
  · rfl

end Like

/-! ### Writing -/

/-- **Told apart by their later indices alone**, with all indices on positions of their relations.
Whatever is added to both or registered in both, they stay so. -/
structure Abreast (k : Relation → Nat) (s s' : Store) : Prop where
  like : s.Like k s'
  shaped : s.Shaped
  shaped' : s'.Shaped

/-- **Registering for a store** is registering for one of its relations. -/
theorem register_extent (s : Store) (r : Relation) (hne : positions ≠ []) :
    Outcome.Pair Eq
      (fun x y => (∀ r', x.1.extent r' = if r = r' then y.1 else s.extent r') ∧ x.2 = some y.2)
      (s.register r positions) ((s.extent r).register positions) := by
  have hempty : ¬positions.isEmpty = true := fun h => hne (List.isEmpty_iff.1 h)
  rw [Store.register, if_neg hempty, Extent.register]
  dsimp only
  cases (s.extent r).indices.findIdx? (·.positions == positions) with
  | some n =>
    refine .ok ⟨fun r' => ?_, rfl⟩
    split
    · next hr => rw [hr]
    · rfl
  | none =>
    cases Index.build positions (s.extent r).tuples with
    | error m => exact .error rfl
    | ok i => exact .ok ⟨fun r' => extent_put .., rfl⟩

namespace Abreast

variable (h : Abreast k s s')
include h

/-- **A tuple of the right arity** is added to either, or is present in both. -/
theorem add (hlen : tuple.length = r.arity) :
    Abreast k (s.add r tuple).1 (s'.add r tuple).1 ∧ (s'.add r tuple).2 = (s.add r tuple).2 := by
  by_cases hmem : tuple ∈ (s.extent r).tuples
  · have hmem' : tuple ∈ (s'.extent r).tuples := h.like.tuples_eq r ▸ hmem
    rw [add_of_mem hmem, add_of_mem hmem']
    exact ⟨h, rfl⟩
  · have hmem' : tuple ∉ (s'.extent r).tuples := h.like.tuples_eq r ▸ hmem
    have fits : ∀ i ∈ (s.extent r).indices ++ (s'.extent r).indices, ∀ p ∈ i.positions,
        p < tuple.length := by
      rw [hlen]
      exact List.forall_mem_append.2 ⟨h.shaped r, h.shaped' r⟩
    refine ⟨⟨fun r' => ?_, h.shaped.add, h.shaped'.add⟩, ?_⟩
    · rw [add_of_notMem hmem, add_of_notMem hmem', extent_put, extent_put]
      split
      · next hr =>
        subst hr
        exact (h.like r).add fits
      · exact h.like r'
    · rw [add_of_notMem hmem, add_of_notMem hmem',
        Extent.insertAll_none fun i hi => fits i (List.mem_append_left _ hi),
        Extent.insertAll_none fun i hi => fits i (List.mem_append_right _ hi)]

/-- **Registering** returns numbers that stand for the same, or fails alike. -/
theorem register (hp : ∀ p ∈ positions, p < r.arity) :
    Outcome.Pair Eq (fun x y => Abreast k x.1 y.1 ∧ IndexNumber.Like (k r) x.2 y.2)
      (s.register r positions) (s'.register r positions) := by
  rcases eq_or_ne positions [] with rfl | hne
  · exact .ok ⟨h, rfl⟩
  · have both := ((register_extent s r hne).trans ((h.like r).register positions)).trans
      (register_extent s' r hne).symm
    refine both.known.imp ?_
    rintro ⟨t, n⟩ ⟨t', n'⟩ ⟨⟨y, ⟨x, ⟨ht, rfl⟩, like, numbers⟩, ht', rfl⟩, ok, ok'⟩
    refine ⟨⟨fun r' => ?_, h.shaped.register hp ok, h.shaped'.register hp ok'⟩, numbers⟩
    rw [ht, ht']
    split
    · next hr => exact hr ▸ like
    · exact h.like r'

end Abreast

end Store

end Datalog
