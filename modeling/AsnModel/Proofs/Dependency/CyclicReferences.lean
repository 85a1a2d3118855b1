import AsnModel.Proofs.Dependency.TopologicalSort

/-!
# The names of a cyclic reference

When there is no topological order, the names left at the end of the removal are those that a cycle
leads to. The core of their graph keeps those that also lead to a cycle: it is the greatest set of
names in which every name refers to another one of the set.
-/

namespace AsnModel

open Relation

universe u

namespace DependencyGraph

/-! ## The core of a graph -/

theorem entries_core_sublist (g : DependencyGraph) : g.core.entries.Sublist g.entries := by
  fun_induction core g with
  | case1 g kept hsize ih => exact ih.trans List.filter_sublist
  | case2 g kept hsize => exact .refl _

theorem keys_core_sublist (g : DependencyGraph) : g.core.keys.Sublist g.keys :=
  g.entries_core_sublist.map _

/-- Every name of the core refers to a name of the core. -/
theorem exists_refers_of_mem_core (g : DependencyGraph) {n : String} (h : n ∈ g.core.keys) :
    ∃ r ∈ g.core.keys, g.Refers n r := by
  have hstable : ∀ n references, (n, references) ∈ g.core.entries →
      ∃ r ∈ references, r ∈ g.core.keys := by
    fun_induction core g with
    | case1 g kept hsize ih => exact ih h
    | case2 g kept hsize =>
      intro n references hentry
      have hkept : kept = g := OrderedMap.filter_eq_self_of_size_le (Nat.le_of_not_lt hsize)
      rw [← hkept, OrderedMap.mem_entries_filter] at hentry
      simpa using hentry.2
  obtain ⟨references, hentry⟩ := (OrderedMap.mem_keys_iff _ _).1 h
  obtain ⟨r, hr, hkey⟩ := hstable n references hentry
  exact ⟨r, hkey, references, g.entries_core_sublist.subset hentry, hr⟩

/-- The core keeps every set of names of the graph in which each name refers to one of the set. -/
theorem mem_core_of_mem (g : DependencyGraph) {s : Set String} (hkeys : ∀ n ∈ s, n ∈ g.keys)
    (h : ∀ n references, (n, references) ∈ g.entries → n ∈ s → ∃ r ∈ references, r ∈ s)
    {n : String} (hn : n ∈ s) : n ∈ g.core.keys := by
  fun_induction core g with
  | case1 g kept hsize ih =>
    have hkept : ∀ m references, (m, references) ∈ kept.entries → (m, references) ∈ g.entries :=
      fun m references hentry => ((OrderedMap.mem_entries_filter _ _ _ _).1 hentry).1
    refine ih (fun m hm => ?_) fun m references hentry => h m references (hkept m references hentry)
    obtain ⟨references, hentry⟩ := (OrderedMap.mem_keys_iff _ _).1 (hkeys m hm)
    obtain ⟨r, hr, hrs⟩ := h m references hentry hm
    refine OrderedMap.mem_keys_of_mem_entries (v := references)
      ((OrderedMap.mem_entries_filter _ _ _ _).2 ⟨hentry, ?_⟩)
    exact List.any_eq_true.2 ⟨r, hr, (OrderedMap.contains_iff _ _).2 (hkeys r hrs)⟩
  | case2 g kept hsize => exact hkeys n hn

end DependencyGraph

/-! ## The names of the error -/

variable {α : Type u} [Dependent α]

/-- `n` lies on a cycle of dependencies or on a path from one cycle to another. -/
def BetweenCycles (items : List α) (n : String) : Prop :=
  ∃ c₁ c₂, OnCycle (DependsOn items) c₁ ∧ OnCycle (DependsOn items) c₂ ∧
    ReflTransGen (DependsOn items) c₁ n ∧ ReflTransGen (DependsOn items) n c₂

theorem betweenCycles_of_onCycle {items : List α} {n : String} (h : OnCycle (DependsOn items) n) :
    BetweenCycles items n := ⟨n, n, h, h, .refl, .refl⟩

theorem mem_entries_removalOf {items : List α} {n : String} {references : List String}
    (h : (n, references) ∈ (removalOf items).graph.entries) (r : String) :
    r ∈ references ↔ DependsOn items n r := by
  rw [← refers_proper_dependencyGraph_iff]
  have hentry := ((invariant_removalOf items).mem_entries_iff n references).1 h
  exact (DependencyGraph.refers_iff_of_mem hentry.1).symm

theorem mem_keys_core_removalOf_iff (items : List α) (n : String) :
    n ∈ (removalOf items).graph.core.keys ↔ BetweenCycles items n := by
  constructor
  · intro hn
    obtain ⟨c₁, hc₁, hpath₁⟩ := (mem_keys_removalOf_iff items n).1
      ((removalOf items).graph.keys_core_sublist.subset hn)
    have hnext : ∀ m ∈ {m | m ∈ (removalOf items).graph.core.keys},
        ∃ r ∈ {m | m ∈ (removalOf items).graph.core.keys}, DependsOn items m r := by
      intro m hm
      obtain ⟨r, hr, references, hentry, hmem⟩ :=
        (removalOf items).graph.exists_refers_of_mem_core hm
      exact ⟨r, hr, (mem_entries_removalOf hentry r).1 hmem⟩
    obtain ⟨c₂, hc₂, hpath₂⟩ := exists_onCycle_ahead (List.finite_toSet _) hnext hn
    exact ⟨c₁, c₂, hc₁, hc₂, hpath₁, hpath₂⟩
  · refine (removalOf items).graph.mem_core_of_mem (s := {n | BetweenCycles items n}) ?_ ?_
    · rintro m ⟨c₁, -, hc₁, -, hpath₁, -⟩
      exact (mem_keys_removalOf_iff items m).2 ⟨c₁, hc₁, hpath₁⟩
    · -- The first step towards the cycle ahead stays between the two cycles.
      rintro m references hentry ⟨c₁, c₂, hc₁, hc₂, hpath₁, hpath₂⟩
      obtain ⟨r, hr, hrest⟩ := TransGen.head'_iff.1 (hc₂.trans_right hpath₂)
      exact ⟨r, (mem_entries_removalOf hentry r).2 hr,
        c₁, c₂, hc₁, hc₂, hpath₁.tail hr, hrest⟩

theorem names_of_topologicalSort {items : List α} {e : CyclicReferences}
    (h : topologicalSort items = .error e) :
    e.names = (removalOf items).graph.core.keys ∧ ∃ n, OnCycle (DependsOn items) n := by
  rw [topologicalSort_eq] at h
  split_ifs at h with hsize
  obtain rfl := Except.error.inj h
  rw [size_graph_removalOf_eq_zero_iff] at hsize
  exact ⟨rfl, not_forall_not.1 hsize⟩

theorem mem_names_of_topologicalSort {items : List α} {e : CyclicReferences}
    (h : topologicalSort items = .error e) (n : String) : n ∈ e.names ↔ BetweenCycles items n := by
  rw [(names_of_topologicalSort h).1, mem_keys_core_removalOf_iff]

theorem names_sublist_of_topologicalSort {items : List α} {e : CyclicReferences}
    (h : topologicalSort items = .error e) :
    e.names.Sublist (items.map Dependent.name).eraseDups := by
  have hleft : (removalOf items).graph.keys.Sublist (dependencyGraph items).proper.keys := by
    rw [(invariant_removalOf items).graph_eq]
    exact OrderedMap.keys_filter_sublist _ _
  rw [DependencyGraph.keys_proper, keys_dependencyGraph] at hleft
  rw [(names_of_topologicalSort h).1]
  exact (removalOf items).graph.keys_core_sublist.trans hleft

/-- The error names just the names on cycles and on paths between cycles, of which there is at least
one, each once and in the order of their first definition. -/
theorem cyclicReferences_names {items : List α} {e : CyclicReferences}
    (h : topologicalSort items = .error e) :
    (∀ n, n ∈ e.names ↔ BetweenCycles items n) ∧ e.names ≠ [] ∧ e.names.Nodup ∧
      e.names.Pairwise fun a b =>
        (items.map Dependent.name).idxOf a < (items.map Dependent.name).idxOf b := by
  have horder := names_sublist_of_topologicalSort h
  refine ⟨mem_names_of_topologicalSort h, ?_, (nodup_eraseDups _).sublist horder,
    (pairwise_idxOf_eraseDups _).sublist horder⟩
  obtain ⟨n, hn⟩ := (names_of_topologicalSort h).2
  exact List.ne_nil_of_mem ((mem_names_of_topologicalSort h n).2 (betweenCycles_of_onCycle hn))

/-- Two cycles, a name on the path between them, a name that only leads to them and one that they
only lead to. -/
theorem cyclicReferences_names_two_cycles :
    let items : List Definition := [.ofUses "User" ["Body"], .ofUses "Part" ["Text", "Page"],
      .ofUses "Page" ["Part"], .ofUses "Body" ["Link", "Body"], .ofUses "Text" [],
      .ofUses "Link" ["Body", "Join"], .ofUses "Join" ["Page", "Text"]]
    let names := ["Part", "Page", "Body", "Link", "Join"]
    topologicalSort items = .error ⟨names⟩ ∧
      (∀ n, n ∈ names ↔ BetweenCycles items n) ∧ names ≠ [] ∧ names.Nodup ∧
      names.Pairwise fun a b =>
        (items.map Dependent.name).idxOf a < (items.map Dependent.name).idxOf b := by
  intro items names
  have hnames : topologicalSort items = .error ⟨names⟩ := by cbv
  exact ⟨hnames, cyclicReferences_names hnames⟩

end AsnModel
