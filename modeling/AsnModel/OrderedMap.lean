/-!
# Maps in insertion order

Finite maps that list their keys in the order in which they were first inserted.

## Main definitions

* `OrderedMap` — a list of entries with distinct keys.
* `OrderedMap.get?`, `OrderedMap.alter`, `OrderedMap.insert`, `OrderedMap.ofList`,
  `OrderedMap.erase`, `OrderedMap.filter`, `OrderedMap.mapValues` — the operations. A key that is
  there keeps its place when its value changes.
-/

namespace AsnModel

universe u v w

/-- A finite map whose entries are ordered. -/
structure OrderedMap (α : Type u) (β : Type v) where
  entries : List (α × β)
  nodup_keys : (entries.map Prod.fst).Nodup

namespace OrderedMap

variable {α : Type u} {β : Type v} {γ : Type w}

/-- The map without entries. -/
def empty : OrderedMap α β := ⟨[], by simp⟩

/-- The keys, in order. -/
def keys (m : OrderedMap α β) : List α := m.entries.map Prod.fst

/-- The number of entries. -/
def size (m : OrderedMap α β) : Nat := m.entries.length

/-- Keep the entries that satisfy `p`. -/
def filter (p : α → β → Bool) (m : OrderedMap α β) : OrderedMap α β :=
  ⟨m.entries.filter fun (k, v) => p k v, m.nodup_keys.sublist (List.filter_sublist.map _)⟩

/-- Change every value. -/
def mapValues (f : α → β → γ) (m : OrderedMap α β) : OrderedMap α γ :=
  ⟨m.entries.map fun (k, v) => (k, f k v), by
    have : (Prod.fst ∘ fun (k, v) => (k, f k v)) = (Prod.fst : α × β → α) := rfl
    simpa [this] using m.nodup_keys⟩

@[simp] theorem keys_empty : (empty : OrderedMap α β).keys = [] := rfl

@[simp] theorem keys_mapValues (f : α → β → γ) (m : OrderedMap α β) :
    (m.mapValues f).keys = m.keys := by
  simp [keys, mapValues, Function.comp_def]

@[simp] theorem length_keys (m : OrderedMap α β) : m.keys.length = m.size := by
  simp [keys, size]

theorem size_filter_le (p : α → β → Bool) (m : OrderedMap α β) : (m.filter p).size ≤ m.size :=
  List.length_filter_le ..

variable [DecidableEq α]

/-- The value of a key. -/
def get? (m : OrderedMap α β) (k : α) : Option β :=
  (m.entries.find? fun e => e.1 = k).map Prod.snd

/-- Whether a key has a value. -/
def contains (m : OrderedMap α β) (k : α) : Bool := k ∈ m.keys

/-- Give a key the value that `f` makes of its present value. A new key goes to the end. -/
def alter (m : OrderedMap α β) (k : α) (f : Option β → β) : OrderedMap α β :=
  if h : k ∈ m.keys then
    m.mapValues fun k' v => if k' = k then f (some v) else v
  else
    ⟨m.entries ++ [(k, f none)], by
      simp only [List.map_append, List.map_cons, List.map_nil, List.nodup_append]
      refine ⟨m.nodup_keys, by simp, fun a ha b hb => ?_⟩
      rintro rfl
      exact h (by simpa [keys, List.mem_singleton.1 hb] using ha)⟩

/-- Give a key a value. -/
def insert (m : OrderedMap α β) (k : α) (v : β) : OrderedMap α β := m.alter k fun _ => v

/-- The map with the given entries. A key that occurs again keeps its place and has the later value. -/
def ofList (entries : List (α × β)) : OrderedMap α β :=
  entries.foldl (fun m e => m.insert e.1 e.2) empty

/-- Remove a key. -/
def erase (m : OrderedMap α β) (k : α) : OrderedMap α β := m.filter fun k' _ => k' ≠ k

/-! ## Keys -/

theorem keys_alter (m : OrderedMap α β) (k : α) (f : Option β → β) :
    (m.alter k f).keys = if k ∈ m.keys then m.keys else m.keys ++ [k] := by
  unfold alter
  split
  · exact keys_mapValues _ m
  · simp [keys]

theorem keys_erase (m : OrderedMap α β) (k : α) :
    (m.erase k).keys = m.keys.filter fun k' => k' ≠ k := by
  simp [keys, erase, filter, List.filter_map, Function.comp_def]

@[simp] theorem contains_iff (m : OrderedMap α β) (k : α) : m.contains k = true ↔ k ∈ m.keys := by
  simp [contains]

/-! ## Values -/

theorem get?_eq_none_iff (m : OrderedMap α β) (k : α) : m.get? k = none ↔ k ∉ m.keys := by
  simp only [get?, keys, Option.map_eq_none_iff, List.find?_eq_none, List.mem_map, Prod.exists,
    decide_eq_true_eq, Prod.forall]
  grind

theorem get?_eq_some_iff (m : OrderedMap α β) (k : α) (v : β) :
    m.get? k = some v ↔ (k, v) ∈ m.entries := by
  obtain ⟨entries, nodup⟩ := m
  induction entries with
  | nil => simp [get?]
  | cons e es ih =>
    obtain ⟨k', v'⟩ := e
    simp only [List.map_cons, List.nodup_cons] at nodup
    have ih := ih nodup.2
    simp only [get?, List.find?_cons] at ih ⊢
    by_cases h : k' = k
    · subst h
      have : (k', v) ∉ es := fun hm => nodup.1 (List.mem_map.2 ⟨_, hm, rfl⟩)
      simp [this, eq_comm]
    · simp [h, ih, Ne.symm h]

/-! ## Size -/

theorem size_erase_le (m : OrderedMap α β) (k : α) : (m.erase k).size ≤ m.size :=
  size_filter_le ..

theorem size_erase_lt {m : OrderedMap α β} {k : α} {v : β} (h : m.get? k = some v) :
    (m.erase k).size < m.size := by
  have := (m.get?_eq_some_iff k v).1 h
  exact List.length_filter_lt_length_iff_exists.2 ⟨_, this, by simp⟩

end OrderedMap

end AsnModel
