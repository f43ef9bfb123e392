import Mathlib
import Datalog.Assoc

/-!
# Proofs/Assoc — reading finite maps

What `get?` returns after several puts, and how it is tied to the list of entries.
-/

namespace Datalog

namespace Assoc

variable {α : Type u} {β : Type v} [DecidableEq α]

/-! ## Entries -/

theorem find_eq_some_iff {k : α} {v : β} : ∀ {es : List (α × β)}, (es.map Prod.fst).Nodup →
    (find k es = some v ↔ (k, v) ∈ es)
  | [], _ => by simp [find]
  | e :: es, h => by
    rw [List.map_cons, List.nodup_cons] at h
    rw [find, List.mem_cons]
    split
    · next hk =>
      constructor
      · intro hv
        exact .inl (Prod.ext hk.symm (Option.some.inj hv).symm)
      · rintro (rfl | hmem)
        · rfl
        · exact absurd (List.mem_map.2 ⟨_, hmem, hk.symm⟩) h.1
    · next hk =>
      rw [find_eq_some_iff h.2]
      refine ⟨.inr, fun hmem => hmem.resolve_left ?_⟩
      rintro rfl
      exact hk rfl

/-- **A key holds a value exactly if the two are an entry.** -/
theorem get?_eq_some_iff {m : Assoc α β} {k : α} {v : β} :
    m.get? k = some v ↔ (k, v) ∈ m.entries :=
  find_eq_some_iff m.nodup

/-- What is made of the entry at a key, found by going through all entries. -/
theorem flatMap_entries {γ : Type w} {f : α × β → List γ} {k : α} {v : β} :
    ∀ {es : List (α × β)}, (es.map Prod.fst).Nodup → (k, v) ∈ es →
      (es.flatMap fun e => if e.1 = k then f e else []) = f (k, v)
  | e :: es, hd, hm => by
    rw [List.map_cons, List.nodup_cons] at hd
    rw [List.flatMap_cons]
    rcases List.mem_cons.1 hm with rfl | hm
    · have rest : (es.flatMap fun e => if e.1 = k then f e else []) = [] := by
        refine List.flatMap_eq_nil_iff.2 fun e he => if_neg fun h => ?_
        exact hd.1 (List.mem_map.2 ⟨e, he, h⟩)
      rw [if_pos rfl, rest, List.append_nil]
    · rw [if_neg, List.nil_append, flatMap_entries hd.2 hm]
      exact fun h => hd.1 (List.mem_map.2 ⟨_, hm, h.symm⟩)

/-- The value at a key, with every value replaced by its image. -/
theorem find_map {γ : Type w} (f : β → γ) (k : α) : ∀ es : List (α × β),
    find k (es.map fun e => (e.1, f e.2)) = (find k es).map f
  | [] => rfl
  | e :: es => by
    rw [List.map_cons, find, find, find_map f k es]
    split <;> rfl

theorem contains_iff {m : Assoc α β} {k : α} : m.contains k = true ↔ ∃ v, m.get? k = some v := by
  rw [contains, Option.isSome_iff_exists]

@[simp] theorem get?_emptyCollection (k : α) : (∅ : Assoc α β).get? k = none := rfl

theorem get?_alter (m : Assoc α β) (k k' : α) (f : Option β → β) :
    (m.alter k f).get? k' = if k = k' then some (f (m.get? k)) else m.get? k' :=
  get?_put m k k' _

/-! ## Putting several keys -/

/-- The map with the pairs put one after the other. -/
def putAll (m : Assoc α β) (pairs : List (α × β)) : Assoc α β :=
  pairs.foldl (fun m e => m.put e.1 e.2) m

@[simp] theorem putAll_nil (m : Assoc α β) : m.putAll [] = m := rfl

@[simp] theorem putAll_cons (m : Assoc α β) (e : α × β) (es : List (α × β)) :
    m.putAll (e :: es) = (m.put e.1 e.2).putAll es := rfl

theorem get?_putAll_of_notMem {k : α} : ∀ {pairs : List (α × β)} {m : Assoc α β},
    k ∉ pairs.map Prod.fst → (m.putAll pairs).get? k = m.get? k
  | [], _, _ => rfl
  | e :: es, m, h => by
    rw [List.map_cons, List.mem_cons, not_or] at h
    rw [putAll_cons, get?_putAll_of_notMem h.2, get?_put, if_neg (Ne.symm h.1)]

/-- What a key holds then, it has held before, or it is one of the pairs. -/
theorem mem_of_get?_putAll {k : α} {v : β} : ∀ {pairs : List (α × β)} {m : Assoc α β},
    (m.putAll pairs).get? k = some v → m.get? k = some v ∨ (k, v) ∈ pairs
  | [], _, h => .inl h
  | e :: es, m, h => by
    rcases mem_of_get?_putAll (putAll_cons m e es ▸ h) with h | h
    · rw [get?_put] at h
      split at h
      · next hk => simp [← hk, ← Option.some.inj h]
      · exact .inl h
    · exact .inr (List.mem_cons_of_mem _ h)

theorem mem_of_get?_ofList {k : α} {v : β} {pairs : List (α × β)}
    (h : (ofList pairs).get? k = some v) : (k, v) ∈ pairs :=
  (mem_of_get?_putAll (m := empty) h).resolve_left nofun

/-- **Each of several distinct keys gets its own value.** -/
theorem get?_putAll_of_mem {k : α} {v : β} : ∀ {pairs : List (α × β)} {m : Assoc α β},
    (pairs.map Prod.fst).Nodup → (k, v) ∈ pairs → (m.putAll pairs).get? k = some v
  | e :: es, m, hd, h => by
    rw [List.map_cons, List.nodup_cons] at hd
    rw [putAll_cons]
    rcases List.mem_cons.1 h with rfl | h
    · rw [get?_putAll_of_notMem hd.1, get?_put, if_pos rfl]
    · exact get?_putAll_of_mem hd.2 h

/-- **The last value put at a key** is the one that stays. -/
theorem get?_ofList_append {k : α} {v : β} {pre post : List (α × β)}
    (last : k ∉ post.map Prod.fst) : (ofList (pre ++ (k, v) :: post)).get? k = some v := by
  have split : ofList (pre ++ (k, v) :: post) =
      (((empty : Assoc α β).putAll pre).put k v).putAll post :=
    List.foldl_append
  rw [split, get?_putAll_of_notMem last, get?_put, if_pos rfl]

end Assoc

end Datalog
