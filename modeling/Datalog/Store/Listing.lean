import Datalog.Store.Basic

/-!
# Store/Listing — the order in which tuples are listed

Tuples are kept in hash sets, so the order in which they come out again is up to the hashing and to
the moment at which an index was filled.  A **listing** settles it, for what a lookup finds and for
what has waited for a round.  It may take into account whatever the relation has held until then,
but it neither loses nor repeats a tuple.
-/

namespace Datalog

/-- **The order in which tuples are listed**, which may be any. -/
structure Listing where
  /-- What a lookup with the key has found, the relation having held the tuples `stored`. -/
  found : (r : Relation) → (stored : List Tuple) → Key → List Tuple → List Tuple
  /-- The new tuples of a relation, when a round has ended. -/
  waited : Relation → List Tuple → List Tuple
  found_perm : ∀ r stored key tuples, (found r stored key tuples).Perm tuples
  waited_perm : ∀ r tuples, (waited r tuples).Perm tuples

namespace Listing

/-- Tuples are listed as they come. -/
def asTheyCome : Listing where
  found _ _ _ tuples := tuples
  waited _ tuples := tuples
  found_perm _ _ _ _ := .refl _
  waited_perm _ _ := .refl _

/-- Tuples are listed the other way round. -/
def backwards : Listing where
  found _ _ _ tuples := tuples.reverse
  waited _ tuples := tuples.reverse
  found_perm _ _ _ tuples := tuples.reverse_perm
  waited_perm _ tuples := tuples.reverse_perm

/-- Tuples can always be listed as they come. -/
instance : Inhabited Listing := ⟨asTheyCome⟩

/-- The tuples of the relation that agree with the key, as they are listed. -/
def lookup (l : Listing) (s : Store) (r : Relation) (key : Key) (index : IndexNumber) :
    List Tuple :=
  l.found r (s.extent r).tuples key (s.lookup r key index)

variable {l : Listing} {s : Store} {r : Relation} {key : Key} {n : IndexNumber}
  {tuples : List Tuple} {t : Tuple}

/-- **Listing neither loses nor repeats** what a lookup finds. -/
theorem lookup_perm (l : Listing) (s : Store) (r : Relation) (key : Key) (n : IndexNumber) :
    (l.lookup s r key n).Perm (s.lookup r key n) :=
  l.found_perm ..

@[simp] theorem mem_lookup : t ∈ l.lookup s r key n ↔ t ∈ s.lookup r key n :=
  (l.lookup_perm ..).mem_iff

@[simp] theorem mem_waited : t ∈ l.waited r tuples ↔ t ∈ tuples :=
  (l.waited_perm r tuples).mem_iff

@[simp] theorem waited_nil : l.waited r [] = [] := (l.waited_perm r []).eq_nil

end Listing

end Datalog
