import AsnModel.Proofs.Dependency.Removal
import AsnModel.Proofs.Dependency.StableSort
import Mathlib.Data.List.Permutation

/-!
# The topological order

The topological order exists exactly if the dependencies between defined names have no cycle. It is
then a rearrangement of the definitions in which every definition stands behind all definitions of
the other names it refers to, and definitions of one name keep their order.

## Main definitions

* `ReferencesFirst` — lists of definitions in which references stand before their uses.
* `removalOf` — the end of the removal that the order is read off from.
-/

namespace AsnModel

open Relation

universe u

variable {α : Type u} [Dependent α]

/-! ## References before uses -/

/-- Every definition of a name that a definition of the list refers to stands before that
definition, unless it has the same name. -/
def ReferencesFirst (sorted : List α) : Prop :=
  ∀ (i j : ℕ) (hi : i < sorted.length) (hj : j < sorted.length),
    Dependent.name sorted[j] ∈ Dependent.references sorted[i] →
      Dependent.name sorted[j] ≠ Dependent.name sorted[i] → j < i

theorem referencesFirst_of_pairwise {sorted : List α}
    (h : sorted.Pairwise fun d e =>
      Dependent.name e ∈ Dependent.references d → Dependent.name e = Dependent.name d) :
    ReferencesFirst sorted := by
  intro i j hi hj href hne
  by_contra hle
  rcases Nat.lt_or_eq_of_le (Nat.le_of_not_lt hle) with hlt | rfl
  · exact hne (List.pairwise_iff_getElem.1 h i j hi hj hlt href)
  · exact hne rfl

/-! ## The end of the removal -/

/-- The state in which no name of the graph of `items` can be removed any more. -/
def removalOf (items : List α) : Removal := (Removal.start (dependencyGraph items).proper).run

theorem invariant_removalOf (items : List α) :
    Removal.Invariant (dependencyGraph items).proper (removalOf items) :=
  ((Removal.Invariant.start _).run (isProper_proper_dependencyGraph items)).1

/-- The names left are those that a cycle leads to. -/
theorem mem_keys_removalOf_iff (items : List α) (n : String) :
    n ∈ (removalOf items).graph.keys ↔
      ∃ c, OnCycle (DependsOn items) c ∧ ReflTransGen (DependsOn items) c n := by
  have hrefers : (dependencyGraph items).proper.Refers = DependsOn items := by
    ext a b
    exact refers_proper_dependencyGraph_iff items a b
  have hg := isProper_proper_dependencyGraph items
  have hend := (Removal.Invariant.start (dependencyGraph items).proper).run hg
  rw [← hrefers]
  exact hend.1.mem_keys_iff_of_roots_nil hg hend.2 n

theorem size_graph_removalOf_eq_zero_iff (items : List α) :
    (removalOf items).graph.size = 0 ↔ ∀ n, ¬ OnCycle (DependsOn items) n := by
  rw [OrderedMap.size_eq_zero_iff, List.eq_nil_iff_forall_not_mem]
  simp only [mem_keys_removalOf_iff, not_exists, not_and]
  exact ⟨fun h n hn => h n n hn .refl, fun h _ c hc => absurd hc (h c)⟩

/-- If no name is left, those of all definitions have been removed. -/
theorem name_mem_order_removalOf {items : List α} (h : (removalOf items).graph.size = 0) :
    ∀ d ∈ items, Dependent.name d ∈ (removalOf items).order := by
  intro d hd
  by_contra hmem
  have hkey := ((invariant_removalOf items).mem_keys_iff (Dependent.name d)).2
    ⟨by simpa [mem_keys_dependencyGraph] using ⟨d, hd, rfl⟩, hmem⟩
  rw [(OrderedMap.size_eq_zero_iff _).1 h] at hkey
  exact List.not_mem_nil hkey

/-! ## The order -/

/-- The order lists the names, and each name stands for all its definitions. -/
theorem topologicalSort_eq (items : List α) :
    topologicalSort items =
      if (removalOf items).graph.size = 0 then
        .ok ((removalOf items).order.flatMap fun name =>
          items.filter fun d => Dependent.name d = name)
      else .error ⟨(removalOf items).graph.core.keys⟩ := by
  rw [topologicalSort, ← removalOf]
  split_ifs with h
  · have hpositions := OrderedMap.pairwise_get?_zipIdx (invariant_removalOf items).nodup_order
    exact congrArg Except.ok (sortByKey_eq_flatMap_filter hpositions (name_mem_order_removalOf h))
  · rfl

theorem exists_topologicalSort_eq_ok_iff (items : List α) :
    (∃ sorted, topologicalSort items = .ok sorted) ↔ ∀ n, ¬ OnCycle (DependsOn items) n := by
  rw [← size_graph_removalOf_eq_zero_iff, topologicalSort_eq]
  split_ifs with h <;> simp [h]

section Order

variable {items sorted : List α}

theorem eq_flatMap_of_topologicalSort (h : topologicalSort items = .ok sorted) :
    sorted = (removalOf items).order.flatMap (fun name =>
        items.filter fun d => Dependent.name d = name) ∧
      ∀ d ∈ items, Dependent.name d ∈ (removalOf items).order := by
  rw [topologicalSort_eq] at h
  split_ifs at h with hsize
  exact ⟨(Except.ok.inj h).symm, name_mem_order_removalOf hsize⟩

theorem eq_sortByKey_of_topologicalSort (h : topologicalSort items = .ok sorted) :
    sorted = sortByKey (fun d =>
      (OrderedMap.ofList (removalOf items).order.zipIdx).get? (Dependent.name d)) items := by
  rw [topologicalSort, ← removalOf] at h
  split_ifs at h
  exact (Except.ok.inj h).symm

theorem perm_of_topologicalSort (h : topologicalSort items = .ok sorted) : sorted.Perm items := by
  rw [eq_sortByKey_of_topologicalSort h]
  exact perm_sortByKey _ items

theorem filter_name_of_topologicalSort (h : topologicalSort items = .ok sorted) (n : String) :
    (sorted.filter fun d => Dependent.name d = n) = items.filter fun d => Dependent.name d = n := by
  rw [eq_sortByKey_of_topologicalSort h]
  exact filter_sortByKey _ items n

theorem referencesFirst_of_topologicalSort (h : topologicalSort items = .ok sorted) :
    ReferencesFirst sorted := by
  obtain ⟨rfl, hmem⟩ := eq_flatMap_of_topologicalSort h
  refine referencesFirst_of_pairwise (List.pairwise_flatMap.2 ⟨fun n _ => ?_, ?_⟩)
  · refine List.pairwise_of_forall_mem_list fun d hd e he _ => ?_
    simp only [List.mem_filter, decide_eq_true_eq] at hd he
    rw [hd.2, he.2]
  · refine (invariant_removalOf items).order_pairwise.imp fun {a b} hab d hd e he href => ?_
    simp only [List.mem_filter, decide_eq_true_eq] at hd he
    obtain ⟨hd, rfl⟩ := hd
    obtain ⟨he, rfl⟩ := he
    by_contra hne
    exact hab ((refers_proper_dependencyGraph_iff _ _ _).2
      ⟨⟨d, hd, rfl, href⟩, List.mem_map_of_mem he, hne⟩)

end Order

/-- The topological order exists exactly if no name depends on itself through others. It has the
same definitions, those of one name in the same order, and each definition stands behind every
definition of another name that it refers to. -/
theorem topologicalSort_sound_complete (items : List α) :
    ((∃ sorted, topologicalSort items = .ok sorted) ↔ ∀ n, ¬ OnCycle (DependsOn items) n) ∧
      ∀ sorted, topologicalSort items = .ok sorted →
        sorted.Perm items ∧
          (∀ n, (sorted.filter fun d => Dependent.name d = n) =
            items.filter fun d => Dependent.name d = n) ∧
          ReferencesFirst sorted :=
  ⟨exists_topologicalSort_eq_ok_iff items, fun _ h =>
    ⟨perm_of_topologicalSort h, filter_name_of_topologicalSort h,
      referencesFirst_of_topologicalSort h⟩⟩

/-- Two definitions of one name that stand apart, one of them with an undefined reference, and a
definition that refers to itself. -/
theorem topologicalSort_sound_complete_shared_name :
    let items : List Definition := [.ofUses "User" ["Tree", "INTEGER"], .ofUses "Tree" ["Tree"],
      .ofUses "User" ["Leaf"], .ofUses "Leaf" []]
    let sorted : List Definition := [.ofUses "Tree" ["Tree"], .ofUses "Leaf" [],
      .ofUses "User" ["Tree", "INTEGER"], .ofUses "User" ["Leaf"]]
    topologicalSort items = .ok sorted ∧ sorted.Perm items ∧
      (∀ n, (sorted.filter fun d => Dependent.name d = n) =
        items.filter fun d => Dependent.name d = n) ∧
      ReferencesFirst sorted := by
  intro items sorted
  have hsorted : topologicalSort items = .ok sorted := by
    rw [topologicalSort_eq]
    cbv
  exact ⟨hsorted, (topologicalSort_sound_complete items).2 sorted hsorted⟩

end AsnModel
