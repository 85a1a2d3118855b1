import AsnModel.Dependency.Component
import AsnModel.Proofs.Dependency.Layered
import Mathlib.Data.Finset.Card
import Mathlib.Data.List.Perm.Basic

/-!
# The state of the search for components

While a depth-first search runs, the stack holds the positions found whose component is open, in the
order of finding them, and each of them reaches those above it. All other positions found are in
finished components, which are layered.

## Main definitions

* `Search.Invariant` — what holds of every state in which a visit begins or ends.
-/

namespace AsnModel

namespace Search

variable {count : ℕ} {edges : ℕ → List ℕ} {s t : Search} {v w : ℕ}

/-- What stands above `v` is popped with it. -/
theorem popThrough_append {above : List ℕ} (h : v ∉ above) (rest : List ℕ) :
    popThrough v (above ++ v :: rest) = (above ++ [v], rest) := by
  induction above with
  | nil => simp [popThrough]
  | cons x xs ih =>
    obtain ⟨hx, hxs⟩ := not_or.1 (mt List.mem_cons.2 h)
    simp [popThrough, Ne.symm hx, ih hxs]

theorem close_eq {above rest : List ℕ} (hstack : s.stack = above ++ v :: rest) (hv : v ∉ above) :
    s.close v =
      { s with
        onStack := fun w => if w ∈ above ++ [v] then false else s.onStack w
        stack := rest
        components := s.components ++ [above ++ [v]] } := by
  simp only [Search.close, hstack, popThrough_append hv]

/-! ## The invariant -/

/-- The position has an index. -/
def Found (s : Search) (v : ℕ) : Prop := ∃ i, s.index v = some i

/-- What holds when a visit begins or ends, in a search among the positions below `count`. -/
structure Invariant (count : ℕ) (edges : ℕ → List ℕ) (s : Search) : Prop where
  lt_count : ∀ {v i}, s.index v = some i → v < count
  index_lt : ∀ {v i}, s.index v = some i → i < s.found
  low_le : ∀ {v i}, s.index v = some i → s.low v ≤ i
  onStack_iff : ∀ v, s.onStack v = true ↔ v ∈ s.stack
  found_iff : ∀ v, s.Found v ↔ v ∈ s.stack ∨ v ∈ s.components.flatten
  nodup : (s.stack ++ s.components.flatten).Nodup
  /-- A position stands above those that were found before it. -/
  stack_index : s.stack.Pairwise fun v w => ∀ i j, s.index v = some i → s.index w = some j → j < i
  /-- A position reaches those that stand above it. -/
  stack_reaches : s.stack.Pairwise fun v w => Reaches edges w v
  layered : Layered edges s.components

namespace Invariant

theorem start : Invariant count edges Search.start where
  lt_count h := by simp [Search.start] at h
  index_lt h := by simp [Search.start] at h
  low_le h := by simp [Search.start] at h
  onStack_iff := by simp [Search.start]
  found_iff := by simp [Search.start, Found]
  nodup := by simp [Search.start]
  stack_index := .nil
  stack_reaches := .nil
  layered := .nil

theorem index_isSome (h : Invariant count edges s) (hv : v ∈ s.stack) : s.Found v :=
  (h.found_iff v).2 (.inl hv)

/-- A position that is not found is neither on the stack nor in a component. -/
theorem not_mem_of_index_eq_none (h : Invariant count edges s) (hv : s.index v = none) :
    v ∉ s.stack ∧ v ∉ s.components.flatten := by
  rw [← not_or, ← h.found_iff]
  rintro ⟨i, hi⟩
  simp [hv] at hi

theorem discover (h : Invariant count edges s) (hv : s.index v = none) (hcount : v < count)
    (hreach : ∀ x ∈ s.stack, Reaches edges x v) : Invariant count edges (s.discover v) := by
  obtain ⟨hstack, hcomponents⟩ := h.not_mem_of_index_eq_none hv
  have hne : ∀ x ∈ s.stack, x ≠ v := fun x hx => ne_of_mem_of_not_mem hx hstack
  constructor
  case lt_count =>
    intro w i hi
    by_cases hw : w = v
    · exact hw ▸ hcount
    · exact h.lt_count (by simpa [Search.discover, hw] using hi)
  case index_lt =>
    intro w i hi
    by_cases hw : w = v
    · simp_all [Search.discover]
    · exact Nat.lt_succ_of_lt (h.index_lt (by simpa [Search.discover, hw] using hi))
  case low_le =>
    intro w i hi
    by_cases hw : w = v
    · simp_all [Search.discover]
    · simpa [Search.discover, hw] using h.low_le (by simpa [Search.discover, hw] using hi)
  case onStack_iff =>
    intro w
    by_cases hw : w = v <;> simp [Search.discover, hw, h.onStack_iff]
  case found_iff =>
    intro w
    have hfound := h.found_iff w
    by_cases hw : w = v
    · simp [Search.discover, Found, hw]
    · simpa [Search.discover, Found, hw] using hfound
  case nodup =>
    exact List.nodup_cons.2 ⟨List.not_mem_append hstack hcomponents, h.nodup⟩
  case stack_index =>
    refine List.pairwise_cons.2 ⟨fun w hw i j hi hj => ?_, h.stack_index.imp_of_mem ?_⟩
    · simp only [Search.discover, if_true, if_neg (hne w hw), Option.some.injEq] at hi hj
      exact hi ▸ h.index_lt hj
    · intro x y hx hy hlt i j hi hj
      simp only [Search.discover, if_neg (hne x hx), if_neg (hne y hy)] at hi hj
      exact hlt i j hi hj
  case stack_reaches => exact List.pairwise_cons.2 ⟨hreach, h.stack_reaches⟩
  case layered => exact h.layered

theorem lower (h : Invariant count edges s) (v i : ℕ) : Invariant count edges (s.lower v i) where
  lt_count := h.lt_count
  index_lt := h.index_lt
  low_le {w j} hj := by
    have hle := h.low_le hj
    by_cases hw : w = v
    · subst hw
      simpa [Search.lower] using .inl hle
    · simpa [Search.lower, hw] using hle
  onStack_iff := h.onStack_iff
  found_iff := h.found_iff
  nodup := h.nodup
  stack_index := h.stack_index
  stack_reaches := h.stack_reaches
  layered := h.layered

theorem not_mem_above (h : Invariant count edges s) {above rest : List ℕ}
    (hstack : s.stack = above ++ v :: rest) : v ∉ above := by
  have hnodup := (List.nodup_append'.1 h.nodup).1
  rw [hstack] at hnodup
  exact fun hmem => (List.nodup_append'.1 hnodup).2.2 hmem List.mem_cons_self

/-- The positions from `v` on can be closed if they reach each other and nothing else is open that
they have an edge to. -/
theorem close (h : Invariant count edges s) {above rest : List ℕ}
    (hstack : s.stack = above ++ v :: rest)
    (hreaches : ∀ x ∈ above ++ [v], ∀ y ∈ above ++ [v], Reaches edges x y)
    (hclosed : ∀ x ∈ above ++ [v], ∀ y ∈ edges x, y ∈ above ++ [v] ∨ y ∈ s.components.flatten) :
    Invariant count edges (s.close v) ∧ (s.close v).stack = rest := by
  have hsplit : s.stack = (above ++ [v]) ++ rest := by simpa using hstack
  have hnodup := h.nodup
  rw [hsplit, List.append_assoc, List.nodup_append'] at hnodup
  obtain ⟨hpopped, hrest, hdisjoint⟩ := hnodup
  have hsub : rest.Sublist s.stack := hsplit ▸ List.sublist_append_right _ _
  rw [close_eq hstack (h.not_mem_above hstack)]
  refine ⟨?_, rfl⟩
  constructor
  case lt_count => exact h.lt_count
  case index_lt => exact h.index_lt
  case low_le => exact h.low_le
  case onStack_iff =>
    intro w
    by_cases hw : w ∈ above ++ [v]
    · have hw' : w ∉ rest := fun hmem => hdisjoint hw (List.mem_append_left _ hmem)
      simp only [hw, if_true, hw', Bool.false_eq_true]
    · simp only [if_neg hw, h.onStack_iff, hsplit]
      exact ⟨fun hmem => (List.mem_append.1 hmem).resolve_left hw, List.mem_append_right _⟩
  case found_iff =>
    intro w
    refine (h.found_iff w).trans ?_
    simp only [hsplit, List.flatten_append, List.flatten_singleton, List.mem_append]
    tauto
  case nodup =>
    rw [List.flatten_append, List.flatten_singleton, ← List.append_assoc]
    exact (List.perm_append_comm.nodup_iff).1
      (List.nodup_append'.2 ⟨hpopped, hrest, hdisjoint⟩)
  case stack_index => exact h.stack_index.sublist hsub
  case stack_reaches => exact h.stack_reaches.sublist hsub
  case layered => exact h.layered.concat (by simp) hreaches hclosed

end Invariant

end Search

end AsnModel
