import AsnModel.Proofs.Dependency.Renaming

/-!
# Sorting a sorted list

Roots leave the removal in the order in which they lie on its stack, whatever is found in between.
So the names that nothing refers to stand in the topological order as they were found, and when the
order is taken again, the removal starts with the same stack. It then goes the same way as before,
and a sorted list of definitions stays as it is.
-/

namespace AsnModel

universe u

namespace Removal

/-! ## Roots leave in order -/

/-- Roots that are found on the way lie on top of those that were there. -/
theorem suffix_roots_foldl_release (references : List String) (s : Removal) :
    s.roots <:+ (references.foldl release s).roots := by
  induction references generalizing s with
  | nil => exact List.suffix_rfl
  | cons name names ih =>
    refine List.IsSuffix.trans ?_ (ih (s.release name))
    change s.roots <:+ if s.degree name - 1 = 0 then name :: s.roots else s.roots
    split_ifs
    · exact List.suffix_cons _ _
    · exact List.suffix_rfl

theorem suffix_roots_remove (s : Removal) (root : String) (rest : List String) :
    rest <:+ (s.remove root rest).roots :=
  suffix_roots_foldl_release _ { s with graph := s.graph.erase root, roots := rest }

/-- The roots on the stack leave from top to bottom, before which others may leave. -/
theorem reverse_roots_append_sublist_order (s : Removal) :
    (s.roots.reverse ++ s.order).Sublist s.run.order := by
  fun_induction Removal.run s with
  | case1 s hroots => simp [hroots]
  | case2 s root rest hroots ih =>
    have hbelow := (List.reverse_sublist.2 (s.suffix_roots_remove root rest).sublist).append_right
      (root :: s.order)
    rw [order_remove] at ih
    simpa [hroots] using hbelow.trans ih

end Removal

variable {α : Type u} [Dependent α] {items sorted : List α}

/-! ## The names of a sorted list -/

/-- The order has all names of the graph. -/
theorem perm_order_of_topologicalSort (h : topologicalSort items = .ok sorted) :
    (removalOf items).order.Perm (dependencyGraph items).keys := by
  have hinv := invariant_removalOf items
  refine (List.perm_ext_iff_of_nodup hinv.nodup_order (dependencyGraph items).nodup_keys).2 ?_
  intro n
  constructor
  · intro hn
    have hkey := hinv.mem_keys_of_order n hn
    rwa [DependencyGraph.keys_proper] at hkey
  · intro hn
    obtain ⟨d, hd, rfl⟩ := List.mem_map.1 ((mem_keys_dependencyGraph items n).1 hn)
    exact (eq_flatMap_of_topologicalSort h).2 d hd

/-- A sorted list has its names in the order of the removal. -/
theorem eraseDups_names_of_topologicalSort (h : topologicalSort items = .ok sorted) :
    (sorted.map Dependent.name).eraseDups = (removalOf items).order := by
  obtain ⟨rfl, -⟩ := eq_flatMap_of_topologicalSort h
  rw [List.map_flatMap]
  refine eraseDups_flatMap_of_nodup (invariant_removalOf items).nodup_order ?_ ?_
  · intro n hn
    have hdefined := (perm_order_of_topologicalSort h).mem_iff.1 hn
    rw [mem_keys_dependencyGraph] at hdefined
    simpa [List.filter_eq_nil_iff] using hdefined
  · intro n _ m hm
    obtain ⟨d, hd, rfl⟩ := List.mem_map.1 hm
    simpa using (List.mem_filter.1 hd).2

/-- The graph of a sorted list has the same entries in another order. -/
theorem renamedTo_of_topologicalSort (h : topologicalSort items = .ok sorted) :
    DependencyGraph.RenamedTo id (dependencyGraph items).proper (dependencyGraph sorted).proper := by
  have hnames : ∀ n, n ∈ sorted.map Dependent.name ↔ n ∈ items.map Dependent.name := fun n =>
    ((perm_of_topologicalSort h).map Dependent.name).mem_iff
  have hreferences : properReferences sorted = properReferences items := by
    funext d
    simp only [properReferences, hnames]
  refine .of_get? ?_ fun n _ => ?_
  · rw [DependencyGraph.keys_proper, DependencyGraph.keys_proper, List.map_id,
      keys_dependencyGraph sorted, eraseDups_names_of_topologicalSort h]
    exact (perm_order_of_topologicalSort h).symm
  · rw [id, List.map_id_fun, Option.map_id, get?_proper_dependencyGraph,
      get?_proper_dependencyGraph, filter_name_of_topologicalSort h, hreferences]
    simp only [hnames, id]

/-- The names that nothing refers to stand in the order as they stand in the graph. -/
theorem filter_order_of_topologicalSort (h : topologicalSort items = .ok sorted) :
    (removalOf items).order.filter (fun n => (dependencyGraph items).proper.referrers n = 0) =
      (dependencyGraph items).keys.filter
        fun n => (dependencyGraph items).proper.referrers n = 0 := by
  have hroots := (Removal.start (dependencyGraph items).proper).reverse_roots_append_sublist_order
  have hstack : (Removal.start (dependencyGraph items).proper).roots.reverse ++
      (Removal.start (dependencyGraph items).proper).order =
        (dependencyGraph items).keys.filter
          fun n => (dependencyGraph items).proper.referrers n = 0 := by
    simp [Removal.start]
  rw [hstack] at hroots
  have hkept := hroots.filter fun n => decide ((dependencyGraph items).proper.referrers n = 0)
  rw [List.filter_filter, List.filter_congr (fun _ _ => Bool.and_self _)] at hkept
  have hlength := ((perm_order_of_topologicalSort h).filter
    fun n => decide ((dependencyGraph items).proper.referrers n = 0)).length_eq
  exact (hkept.eq_of_length hlength.symm).symm

/-! ## Sorting again -/

/-- The removal starts with the same roots when a sorted list is sorted again. -/
theorem renamed_removalOf_of_topologicalSort (h : topologicalSort items = .ok sorted) :
    Removal.Renamed id (removalOf items) (removalOf sorted) := by
  have hgraph := renamedTo_of_topologicalSort h
  refine (Removal.Renamed.start Function.injective_id hgraph ?_).run Function.injective_id
  have hreferrers : (dependencyGraph sorted).proper.referrers =
      (dependencyGraph items).proper.referrers :=
    funext (hgraph.referrers_eq Function.injective_id)
  simp only [Removal.start, hreferrers, DependencyGraph.keys_proper, List.map_id]
  rw [keys_dependencyGraph sorted, eraseDups_names_of_topologicalSort h,
    filter_order_of_topologicalSort h]

/-- Sorting a sorted list again changes nothing. -/
theorem topologicalSort_idempotent (h : topologicalSort items = .ok sorted) :
    topologicalSort sorted = .ok sorted := by
  have hagain := renamed_removalOf_of_topologicalSort h
  have horder : (removalOf sorted).order = (removalOf items).order := by
    rw [hagain.order, List.map_id]
  have hsize : (removalOf items).graph.size = 0 := by
    rw [topologicalSort_eq] at h
    by_contra hne
    simp [hne] at h
  rw [topologicalSort_eq, hagain.graph.size_eq, if_pos hsize, horder]
  simp only [filter_name_of_topologicalSort h]
  rw [← (eq_flatMap_of_topologicalSort h).1]

/-- Definitions of one name that stand apart, one of them with an undefined reference, and a
definition that refers to itself. -/
theorem topologicalSort_idempotent_shared_name :
    let items : List Definition := [.ofUses "User" ["Tree", "INTEGER"], .ofUses "Name" ["Leaf"],
      .ofUses "Tree" ["Tree"], .ofUses "User" ["Leaf"], .ofUses "Leaf" []]
    let sorted : List Definition := [.ofUses "Tree" ["Tree"], .ofUses "Leaf" [],
      .ofUses "User" ["Tree", "INTEGER"], .ofUses "User" ["Leaf"], .ofUses "Name" ["Leaf"]]
    topologicalSort items = .ok sorted ∧ topologicalSort sorted = .ok sorted := by
  intro items sorted
  have hsorted : topologicalSort items = .ok sorted := by
    rw [topologicalSort_eq]
    cbv
  exact ⟨hsorted, topologicalSort_idempotent hsorted⟩

end AsnModel
