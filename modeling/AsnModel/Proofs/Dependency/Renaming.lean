import AsnModel.Proofs.Dependency.TopologicalSort
import Mathlib.Data.List.Perm.Basic

/-!
# Removal under other names

The removal of names from a graph compares names, but never looks into them, and it looks entries up
by their names. If two graphs differ only in an injective change of names and in the order of their
entries, and the removal starts with corresponding roots, it goes the same way in both.

## Main definitions

* `DependencyGraph.RenamedTo` — the same graph under other names, its entries in any order.
* `DependencyGraph.rename` — the graph under other names, its entries in the same order.
* `Removal.Renamed` — corresponding states of two removals.
-/

namespace AsnModel

/-- A filter that treats members alike before and after a change commutes with the change. -/
theorem filter_map_comm {α β : Type*} {f : α → β} {p : α → Bool} {q : β → Bool}
    (h : ∀ a, q (f a) = p a) (l : List α) : (l.map f).filter q = (l.filter p).map f := by
  rw [List.filter_map, show q ∘ f = p from funext h]

variable {r : String → String}

namespace DependencyGraph

variable {g g' : DependencyGraph}

/-- The entries of a graph under other names are what these names find in the other graph. -/
theorem map_entries_eq (hget : ∀ n ∈ g.keys, g'.get? (r n) = (g.get? n).map (List.map r)) :
    g.entries.map (Prod.map r (List.map r)) =
      (g.keys.map r).filterMap fun n => (g'.get? n).map (n, ·) := by
  have hentry : ∀ n ∈ g.keys, (g'.get? (r n)).map (r n, ·) =
      ((g.get? n).map (n, ·)).map (Prod.map r (List.map r)) := by
    intro n hn
    simp [hget n hn, Function.comp_def]
  rw [OrderedMap.entries_eq_filterMap_keys g, List.map_filterMap, ← List.filterMap_congr hentry,
    List.filterMap_map]
  rfl

/-- `g'` has the entries of `g` with their names changed by `r`, in any order. -/
def RenamedTo (r : String → String) (g g' : DependencyGraph) : Prop :=
  (g.entries.map (Prod.map r (List.map r))).Perm g'.entries

namespace RenamedTo

theorem perm_keys (h : RenamedTo r g g') : (g.keys.map r).Perm g'.keys := by
  simpa [OrderedMap.keys, Function.comp_def] using h.map Prod.fst

theorem size_eq (h : RenamedTo r g g') : g'.size = g.size := by
  simpa [OrderedMap.size] using h.length_eq.symm

/-- What the names find decides how two graphs correspond, up to the order of their entries. -/
theorem of_get? (hkeys : (g.keys.map r).Perm g'.keys)
    (hget : ∀ n ∈ g.keys, g'.get? (r n) = (g.get? n).map (List.map r)) : RenamedTo r g g' := by
  rw [RenamedTo, map_entries_eq hget, OrderedMap.entries_eq_filterMap_keys g']
  exact hkeys.filterMap _

variable (hr : Function.Injective r)

include hr

theorem get?_eq (h : RenamedTo r g g') (n : String) :
    g'.get? (r n) = (g.get? n).map (List.map r) := by
  cases hn : g.get? n with
  | none =>
    rw [OrderedMap.get?_eq_none_iff] at hn
    rw [Option.map_none, OrderedMap.get?_eq_none_iff, ← h.perm_keys.mem_iff,
      List.mem_map_of_injective hr]
    exact hn
  | some references =>
    rw [OrderedMap.get?_eq_some_iff] at hn
    rw [Option.map_some, OrderedMap.get?_eq_some_iff, ← h.mem_iff]
    exact List.mem_map_of_mem hn

theorem referrers_eq (h : RenamedTo r g g') (n : String) :
    g'.referrers (r n) = g.referrers n := by
  unfold referrers
  rw [← h.countP_eq, List.countP_map]
  refine List.countP_congr fun e _ => ?_
  simp [hr.eq_iff]

theorem erase (h : RenamedTo r g g') (n : String) :
    RenamedTo r (g.erase n) (g'.erase (r n)) := by
  have hkept := List.Perm.filter (fun e => decide (e.1 ≠ r n)) h
  rwa [filter_map_comm (p := fun e => decide (e.1 ≠ n)) fun e => by simp [hr.eq_iff]] at hkept

end RenamedTo

/-! ## The same order of entries -/

section Rename

variable (hr : Function.Injective r)

/-- The graph under other names, with its entries in the same order. -/
def rename (hr : Function.Injective r) (g : DependencyGraph) : DependencyGraph :=
  ⟨g.entries.map (Prod.map r (List.map r)), by
    simpa [Function.comp_def] using g.nodup_keys.map hr⟩

theorem renamedTo_rename (g : DependencyGraph) : RenamedTo r g (g.rename hr) := .refl _

/-- Keys in the same order and what they find decide that a graph is another one under other
names. -/
theorem eq_rename_of_get? (hkeys : g'.keys = g.keys.map r)
    (hget : ∀ n ∈ g.keys, g'.get? (r n) = (g.get? n).map (List.map r)) : g' = g.rename hr := by
  refine OrderedMap.eq_of_entries_eq ?_
  rw [OrderedMap.entries_eq_filterMap_keys g', hkeys]
  exact (map_entries_eq hget).symm

@[simp] theorem keys_rename (g : DependencyGraph) : (g.rename hr).keys = g.keys.map r := by
  simp [rename, OrderedMap.keys, Function.comp_def]

@[simp] theorem size_rename (g : DependencyGraph) : (g.rename hr).size = g.size := by
  simp [rename, OrderedMap.size]

@[simp] theorem contains_rename (g : DependencyGraph) (n : String) :
    (g.rename hr).contains (r n) = g.contains n := by
  simp [OrderedMap.contains, hr.eq_iff]

theorem filter_rename {p q : String → List String → Bool} (g : DependencyGraph)
    (h : ∀ n references, q (r n) (references.map r) = p n references) :
    OrderedMap.filter q (g.rename hr) = rename hr (g.filter p) :=
  OrderedMap.eq_of_entries_eq (filter_map_comm (fun e => h e.1 e.2) g.entries)

/-- The names between cycles are the same, in the same order, under other names. -/
theorem core_rename (g : DependencyGraph) : (g.rename hr).core = g.core.rename hr := by
  have hkept : ∀ g : DependencyGraph,
      ((g.rename hr).filter fun _ references => references.any (g.rename hr).contains) =
        rename hr (g.filter fun _ references => references.any g.contains) := by
    intro g
    refine filter_rename hr g fun n references => ?_
    simp [List.any_map, Function.comp_def]
  fun_induction core g with
  | case1 g kept hsize ih =>
    rw [core, hkept, size_rename, size_rename, if_pos hsize]
    exact ih
  | case2 g kept hsize =>
    rw [core, hkept, size_rename, size_rename, if_neg hsize]

end Rename

end DependencyGraph

namespace Removal

variable {s t : Removal}

/-- `t` is the state that `s` becomes when names are changed by `r`. -/
structure Renamed (r : String → String) (s t : Removal) : Prop where
  graph : DependencyGraph.RenamedTo r s.graph t.graph
  degree : ∀ n, t.degree (r n) = s.degree n
  roots : t.roots = s.roots.map r
  order : t.order = s.order.map r

namespace Renamed

variable (hr : Function.Injective r)

include hr

/-- Removals correspond from the start if their roots do. -/
theorem start {g g' : DependencyGraph} (h : DependencyGraph.RenamedTo r g g')
    (hroots : (Removal.start g').roots = (Removal.start g).roots.map r) :
    Renamed r (Removal.start g) (Removal.start g') where
  graph := h
  degree := h.referrers_eq hr
  roots := hroots
  order := rfl

theorem release (h : Renamed r s t) (name : String) :
    Renamed r (s.release name) (t.release (r name)) where
  graph := h.graph
  degree n := by
    simp only [Removal.release, hr.eq_iff, h.degree]
  roots := by
    simp only [Removal.release, h.degree, h.roots]
    split_ifs <;> rfl
  order := h.order

theorem foldl_release (h : Renamed r s t) (references : List String) :
    Renamed r (references.foldl Removal.release s)
      ((references.map r).foldl Removal.release t) := by
  induction references generalizing s t with
  | nil => exact h
  | cons name names ih => exact ih (h.release hr name)

theorem remove (h : Renamed r s t) (root : String) (rest : List String) :
    Renamed r (s.remove root rest) (t.remove (r root) (rest.map r)) := by
  have hreferences : (t.graph.get? (r root)).getD [] =
      ((s.graph.get? root).getD []).map r := by
    rw [h.graph.get?_eq hr]
    cases s.graph.get? root <;> rfl
  have hwithout : Renamed r { s with graph := s.graph.erase root, roots := rest }
      { t with graph := t.graph.erase (r root), roots := rest.map r } :=
    ⟨h.graph.erase hr root, h.degree, rfl, h.order⟩
  have hreleased := hwithout.foldl_release hr ((s.graph.get? root).getD [])
  rw [← hreferences] at hreleased
  exact { hreleased with order := congrArg (r root :: ·) hreleased.order }

/-- Corresponding states end in corresponding states. -/
theorem run (h : Renamed r s t) : Renamed r s.run t.run := by
  fun_induction Removal.run s generalizing t with
  | case1 s hroots =>
    have hnone : t.roots = [] := by rw [h.roots, hroots, List.map_nil]
    rw [run_of_roots_nil hnone]
    exact h
  | case2 s root rest hroots ih =>
    have hnext : t.roots = r root :: rest.map r := by rw [h.roots, hroots, List.map_cons]
    rw [run_of_roots_cons hnext]
    exact ih (h.remove hr root rest)

end Renamed

end Removal

end AsnModel
