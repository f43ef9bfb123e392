/-!
# Assoc — finite maps that remember the order of their keys

An association list whose keys are distinct.  Putting a key that is already there replaces its value
*in place*; a new key goes to the end.  So the order of the entries is the order in which the keys
were first put, which is the order answers list bindings, counts and relations in.
-/

namespace Datalog

/-- **A finite map with its keys in first-put order.** -/
structure Assoc (α : Type u) (β : Type v) where
  entries : List (α × β)
  nodup : (entries.map Prod.fst).Nodup

namespace Assoc

variable {α : Type u} {β : Type v} {γ : Type w}

/-- The map with no keys. -/
def empty : Assoc α β := ⟨[], List.nodup_nil⟩

/-- The empty map is written `∅`. -/
instance : EmptyCollection (Assoc α β) := ⟨empty⟩
/-- There is always the empty map. -/
instance : Inhabited (Assoc α β) := ⟨empty⟩

/-- Maps are compared entry by entry, in the order of the entries. -/
instance [DecidableEq α] [DecidableEq β] : DecidableEq (Assoc α β)
  | ⟨es, _⟩, ⟨fs, _⟩ =>
    if h : es = fs then isTrue (by subst h; rfl) else isFalse fun e => h (congrArg entries e)

@[ext] theorem ext {m m' : Assoc α β} (h : m.entries = m'.entries) : m = m' := by
  cases m; cases m'; cases h; rfl

/-- The keys, in the order in which they were first put. -/
def keys (m : Assoc α β) : List α := m.entries.map Prod.fst

/-- The number of keys. -/
def size (m : Assoc α β) : Nat := m.entries.length

/-- There are no keys. -/
def isEmpty (m : Assoc α β) : Bool := m.entries.isEmpty

/-- The same keys, each value replaced by its image. -/
def mapValues (f : β → γ) (m : Assoc α β) : Assoc α γ where
  entries := m.entries.map fun e => (e.1, f e.2)
  nodup := by
    rw [List.map_map]
    exact m.nodup

section Lookup

variable [DecidableEq α]

/-- The value that the first entry at `k` holds. -/
def find (k : α) : List (α × β) → Option β
  | [] => none
  | (k', v) :: es => if k' = k then some v else find k es

/-- **The value at a key**, if it has one. -/
def get? (m : Assoc α β) (k : α) : Option β := find k m.entries

/-- The key has a value. -/
def contains (m : Assoc α β) (k : α) : Bool := (m.get? k).isSome

/-- Writes `v` where `k` stands, or at the end. -/
def write (k : α) (v : β) : List (α × β) → List (α × β)
  | [] => [(k, v)]
  | e :: es => if e.1 = k then (k, v) :: es else e :: write k v es

theorem map_fst_write (k : α) (v : β) : ∀ es : List (α × β),
    (write k v es).map Prod.fst =
      if k ∈ es.map Prod.fst then es.map Prod.fst else es.map Prod.fst ++ [k]
  | [] => by simp [write]
  | e :: es => by
      by_cases h : e.1 = k
      · simp [write, h]
      · have h' : ¬k = e.1 := fun hk => h hk.symm
        simp only [write, if_neg h, List.map_cons, map_fst_write k v es, List.mem_cons, h',
          false_or]
        split <;> simp

/-- **Putting a key keeps the keys distinct**, since only an absent key is appended. -/
theorem nodup_write (k : α) (v : β) (es : List (α × β)) (h : (es.map Prod.fst).Nodup) :
    ((write k v es).map Prod.fst).Nodup := by
  rw [map_fst_write]
  split
  · exact h
  · next hk =>
      refine List.nodup_append.2 ⟨h, by simp, fun a ha b hb => ?_⟩
      obtain rfl := List.mem_singleton.1 hb
      exact fun hab => hk (hab ▸ ha)

/-- The map with `v` at `k`. -/
def put (m : Assoc α β) (k : α) (v : β) : Assoc α β :=
  ⟨write k v m.entries, nodup_write k v m.entries m.nodup⟩

/-- The map with the value at `k` replaced by its image; an absent key counts as `none`. -/
def alter (m : Assoc α β) (k : α) (f : Option β → β) : Assoc α β := m.put k (f (m.get? k))

/-- Puts the pairs one after the other. -/
def ofList (es : List (α × β)) : Assoc α β := es.foldl (fun m e => m.put e.1 e.2) empty

/-- **The same bindings, in whatever order.** -/
def sameEntries [DecidableEq β] (m m' : Assoc α β) : Bool :=
  m.size == m'.size && m.entries.all fun e => m'.get? e.1 == some e.2

@[simp] theorem get?_empty (k : α) : (empty : Assoc α β).get? k = none := rfl

theorem find_write (k k' : α) (v : β) : ∀ es : List (α × β),
    find k' (write k v es) = if k = k' then some v else find k' es
  | [] => by simp [write, find]
  | e :: es => by
      by_cases h : e.1 = k
      · subst h
        by_cases h' : e.1 = k' <;> simp [write, find, h']
      · simp only [write, if_neg h, find, find_write k k' v es]
        by_cases h' : e.1 = k'
        · have hk : ¬k = k' := fun hk => h (h'.trans hk.symm)
          simp [h', hk]
        · simp [h']

/-- **Reading after putting**: the new value at the key put, the old one elsewhere. -/
theorem get?_put (m : Assoc α β) (k k' : α) (v : β) :
    (m.put k v).get? k' = if k = k' then some v else m.get? k' :=
  find_write k k' v m.entries

/-- A key that is there keeps its place; a new one comes last. -/
theorem keys_put (m : Assoc α β) (k : α) (v : β) :
    (m.put k v).keys = if k ∈ m.keys then m.keys else m.keys ++ [k] :=
  map_fst_write k v m.entries

end Lookup

end Assoc

end Datalog
