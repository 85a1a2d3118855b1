import AsnModel.Proofs.Dependency.Visit
import Mathlib.Data.List.Induction

/-!
# The components of a list of definitions

The sort of definitions by dependency puts two definitions into one component exactly if each leads
to the other along references to last definitions, and has no reference from a component to a later
one.

## Main definitions

* `RefersTo` — a definition refers to a name that has its last definition at a position.
* `positionEdges` — the edges that the search follows.
-/

namespace AsnModel

open Relation

universe u

variable {α : Type u} [Dependent α]

/-! ## Edges between positions -/

/-- The definition at `i` refers to a name whose last definition is at `j`. -/
def RefersTo (items : List α) (i j : ℕ) : Prop :=
  ∃ (hi : i < items.length) (hj : j < items.length),
    Dependent.name items[j] ∈ Dependent.references items[i] ∧
      ∀ (k : ℕ) (hk : k < items.length), j < k → Dependent.name items[k] ≠ Dependent.name items[j]

/-- The last definitions of the names that the definition at a position refers to. -/
def positionEdges (items : List α) (v : ℕ) : List ℕ :=
  (referencePositions items).toArray[v]?.getD []

theorem lastPosition?_concat (items : List α) (d : α) (name : String) :
    lastPosition? (items ++ [d]) name =
      if Dependent.name d = name then some items.length else lastPosition? items name := by
  simp only [lastPosition?, List.zipIdx_append, List.filter_append, List.getLast?_append]
  by_cases h : Dependent.name d = name <;> simp [h]

theorem lastPosition?_eq_some_iff (items : List α) (name : String) (j : ℕ) :
    lastPosition? items name = some j ↔
      ∃ hj : j < items.length, Dependent.name items[j] = name ∧
        ∀ (k : ℕ) (hk : k < items.length), j < k → Dependent.name items[k] ≠ name := by
  induction items using List.reverseRecOn with
  | nil => simp [lastPosition?]
  | append_singleton items d ih =>
    rw [lastPosition?_concat]
    split_ifs with hd
    · rw [Option.some.injEq]
      constructor
      · rintro rfl
        refine ⟨by simp, by simpa using hd, fun k hk hlt => ?_⟩
        simp only [List.length_append, List.length_singleton] at hk
        omega
      · rintro ⟨hj, -, hlast⟩
        simp only [List.length_append, List.length_singleton] at hj hlast
        -- Any earlier position is followed by the definition at the end.
        by_contra hne
        exact hlast items.length (by omega) (by omega) (by simpa using hd)
    · rw [ih]
      constructor
      · rintro ⟨hj, hname, hlast⟩
        refine ⟨by simp; omega, by simpa [List.getElem_append_left hj] using hname, ?_⟩
        intro k hk hlt
        by_cases hk' : k < items.length
        · simpa [List.getElem_append_left hk'] using hlast k hk' hlt
        · have hend : k = items.length := by simp at hk; omega
          subst hend
          simpa using hd
      · rintro ⟨hj, hname, hlast⟩
        have hj' : j < items.length := by
          by_contra hend
          have hend : j = items.length := by simp at hj; omega
          subst hend
          exact hd (by simpa using hname)
        refine ⟨hj', by simpa [List.getElem_append_left hj'] using hname, fun k hk hlt => ?_⟩
        have hne := hlast k (by simp; omega) hlt
        rwa [List.getElem_append_left hk] at hne

theorem mem_positionEdges_iff (items : List α) (i j : ℕ) :
    j ∈ positionEdges items i ↔ RefersTo items i j := by
  simp only [positionEdges, referencePositions, RefersTo, List.getElem?_toArray, List.getElem?_map]
  by_cases hi : i < items.length
  · simp only [List.getElem?_eq_getElem hi, Option.map_some, Option.getD_some, List.mem_filterMap,
      lastPosition?_eq_some_iff]
    constructor
    · rintro ⟨name, href, hj, rfl, hlast⟩
      exact ⟨hi, hj, href, hlast⟩
    · rintro ⟨_, hj, href, hlast⟩
      exact ⟨_, href, hj, rfl, hlast⟩
  · simp [hi]

theorem lt_length_of_mem_positionEdges (items : List α) :
    ∀ i < items.length, ∀ j ∈ positionEdges items i, j < items.length := by
  intro i _ j hj
  obtain ⟨-, hlt, -⟩ := (mem_positionEdges_iff items i j).1 hj
  exact hlt

theorem reaches_positionEdges_iff (items : List α) (i j : ℕ) :
    Reaches (positionEdges items) i j ↔ ReflTransGen (RefersTo items) i j := by
  simp only [Reaches, mem_positionEdges_iff]

/-! ## The components -/

theorem layered_componentPositions (items : List α) :
    Layered (positionEdges items) (componentPositions items) ∧
      (componentPositions items).flatten.Perm (List.range items.length) :=
  layered_strongComponents (lt_length_of_mem_positionEdges items)

theorem nodup_componentPositions (items : List α) : (componentPositions items).flatten.Nodup :=
  (layered_componentPositions items).2.nodup_iff.2 List.nodup_range

theorem mem_componentPositions_iff (items : List α) (i : ℕ) :
    i ∈ (componentPositions items).flatten ↔ i < items.length := by
  rw [(layered_componentPositions items).2.mem_iff, List.mem_range]

theorem lt_length_of_mem_component {items : List α} {c : List ℕ} (hc : c ∈ componentPositions items)
    {i : ℕ} (hi : i ∈ c) : i < items.length :=
  (mem_componentPositions_iff items i).1 (List.mem_flatten.2 ⟨c, hc, hi⟩)

/-- Two positions are in one component exactly if each leads to the other. -/
theorem exists_component_iff (items : List α) {i j : ℕ} (hi : i < items.length)
    (hj : j < items.length) :
    (∃ c ∈ componentPositions items, i ∈ c ∧ j ∈ c) ↔
      ReflTransGen (RefersTo items) i j ∧ ReflTransGen (RefersTo items) j i := by
  rw [← reaches_positionEdges_iff, ← reaches_positionEdges_iff]
  exact (layered_componentPositions items).1.exists_mem_and_mem_iff (nodup_componentPositions items)
    ((mem_componentPositions_iff items i).2 hi) ((mem_componentPositions_iff items j).2 hj)

theorem component_le_of_refersTo (items : List α) {k l : ℕ}
    (hk : k < (componentPositions items).length) (hl : l < (componentPositions items).length)
    {i j : ℕ} (hi : i ∈ (componentPositions items)[k]) (hj : j ∈ (componentPositions items)[l])
    (href : RefersTo items i j) : l ≤ k :=
  (layered_componentPositions items).1.le_of_edge (nodup_componentPositions items) hk hl hi hj
    ((mem_positionEdges_iff items i j).2 href)

/-- Each position of a component stands for the definition at that position. -/
theorem map_some_filterMap {items : List α} {p : List ℕ} (hp : p ∈ componentPositions items) :
    (p.filterMap (items[·]?)).map some = p.map (items[·]?) := by
  have hlt : ∀ i ∈ p, i < items.length := fun i hi => lt_length_of_mem_component hp hi
  clear hp
  induction p with
  | nil => rfl
  | cons i is ih =>
    obtain ⟨hi, his⟩ := List.forall_mem_cons.1 hlt
    simpa [List.getElem?_eq_getElem hi] using ih his

theorem length_filterMap_component {items : List α} {p : List ℕ}
    (hp : p ∈ componentPositions items) : (p.filterMap (items[·]?)).length = p.length := by
  simpa using congrArg List.length (map_some_filterMap hp)

theorem mem_filterMap_getElem?_iff {β : Type u} {l : List β} {p : List ℕ} {a : β} :
    a ∈ p.filterMap (l[·]?) ↔ ∃ i ∈ p, ∃ hi : i < l.length, l[i] = a := by
  simp only [List.mem_filterMap, List.getElem?_eq_some_iff]

theorem map_dependencySort (items : List α) :
    (dependencySort items).map (List.map some) =
      (componentPositions items).map (List.map (items[·]?)) := by
  rw [dependencySort, List.map_map]
  exact List.map_congr_left fun p hp => map_some_filterMap hp

/-- The components are not empty, hold every position once, put positions together exactly if each
leads to the other, and refer only to themselves and to components before them. -/
theorem dependencySort_strong_components (items : List α) :
    (dependencySort items).map (List.map some) =
        (componentPositions items).map (List.map (items[·]?)) ∧
      (∀ c ∈ componentPositions items, c ≠ []) ∧
      (componentPositions items).flatten.Perm (List.range items.length) ∧
      (∀ i j, i < items.length → j < items.length →
        ((∃ c ∈ componentPositions items, i ∈ c ∧ j ∈ c) ↔
          ReflTransGen (RefersTo items) i j ∧ ReflTransGen (RefersTo items) j i)) ∧
      ∀ (k l : ℕ) (hk : k < (componentPositions items).length)
        (hl : l < (componentPositions items).length),
        ∀ i ∈ (componentPositions items)[k], ∀ j ∈ (componentPositions items)[l],
          RefersTo items i j → l ≤ k :=
  ⟨map_dependencySort items, (layered_componentPositions items).1.ne_nil_of_mem,
    (layered_componentPositions items).2, fun _ _ hi hj => exists_component_iff items hi hj,
    fun _ _ hk hl _ hi _ hj href => component_le_of_refersTo items hk hl hi hj href⟩

/-- Two definitions of one name, of which only the last one is referred to and is on a cycle. -/
theorem dependencySort_strong_components_shared_name :
    let items : List Definition := [.ofUses "User" ["Tree"], .ofUses "Tree" ["Tree", "Leaf"],
      .ofUses "Tree" ["User"], .ofUses "Leaf" ["INTEGER"]]
    componentPositions items = [[2, 0], [3], [1]] ∧
      (ReflTransGen (RefersTo items) 0 2 ∧ ReflTransGen (RefersTo items) 2 0) ∧
      ¬ (ReflTransGen (RefersTo items) 1 2 ∧ ReflTransGen (RefersTo items) 2 1) ∧
      ¬ RefersTo items 2 1 := by
  intro items
  have hpositions : componentPositions items = [[2, 0], [3], [1]] := by decide
  obtain ⟨-, -, -, htogether, hbefore⟩ := dependencySort_strong_components items
  refine ⟨hpositions, ?_, ?_, ?_⟩
  · rw [← htogether 0 2 (by decide) (by decide), hpositions]
    decide
  · rw [← htogether 1 2 (by decide) (by decide), hpositions]
    decide
  · intro href
    have hle := hbefore 0 2 (by decide) (by decide) 2 (by simp [hpositions]) 1
      (by simp [hpositions]) href
    omega

end AsnModel
