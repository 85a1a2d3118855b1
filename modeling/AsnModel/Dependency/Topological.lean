import AsnModel.Dependency.Graph

/-!
# Topological order of definitions

Definitions are put into an order in which everything that a definition refers to comes before it,
by removing names that nothing refers to any more, one after the other, and putting each in front
of those removed earlier. A definition may refer to itself and to names without a definition. Any
other cycle makes the order impossible.

## Main definitions

* `Removal` — the state of the removal of names from a graph.
* `Removal.run` — remove names as long as there is one that nothing refers to.
* `DependencyGraph.core` — the names on cycles and on the paths between them.
* `sortByKey` — a stable sort.
* `topologicalSort` — the definitions in order, or the names that prevent it.
-/

namespace AsnModel

universe u v

/-- A state in the removal of names from a dependency graph. -/
structure Removal where
  /-- The names that have not been removed. -/
  graph : DependencyGraph
  /-- For each name, how many names of the graph refer to it. -/
  degree : String → Nat
  /-- The names of the graph that nothing refers to; the one found last comes first. -/
  roots : List String
  /-- The names removed so far; the one removed last comes first. -/
  order : List String

namespace Removal

/-- Before any name is removed. -/
def start (g : DependencyGraph) : Removal where
  graph := g
  degree := g.referrers
  roots := (g.keys.filter fun name => g.referrers name = 0).reverse
  order := []

/-- Note that one name less refers to `name`, which makes it a root if it was the last one. -/
def release (s : Removal) (name : String) : Removal :=
  let rest := s.degree name - 1
  { s with
    degree := fun n => if n = name then rest else s.degree n
    roots := if rest = 0 then name :: s.roots else s.roots }

/-- Remove `root` from the graph, with `rest` as the other roots. -/
def remove (s : Removal) (root : String) (rest : List String) : Removal :=
  let references := (s.graph.get? root).getD []
  let s := references.foldl release { s with graph := s.graph.erase root, roots := rest }
  { s with order := root :: s.order }

@[simp] theorem graph_foldl_release (references : List String) (s : Removal) :
    (references.foldl release s).graph = s.graph := by
  induction references generalizing s with
  | nil => rfl
  | cons r rs ih => simp [ih, release]

@[simp] theorem graph_remove (s : Removal) (root : String) (rest : List String) :
    (s.remove root rest).graph = s.graph.erase root := by
  simp [remove]

/-- Each removal makes the graph smaller, or leaves it and has one root less. -/
theorem remove_lt (s : Removal) {root : String} {rest : List String}
    (h : s.roots = root :: rest) :
    Prod.Lex (· < ·) (· < ·)
      ((s.remove root rest).graph.size, (s.remove root rest).roots.length)
      (s.graph.size, s.roots.length) := by
  cases hr : s.graph.get? root with
  | some references => exact .left _ _ (by simpa using OrderedMap.size_erase_lt hr)
  | none =>
    have hroots : (s.remove root rest).roots = rest := by simp [remove, hr]
    rcases Nat.lt_or_eq_of_le (s.graph.size_erase_le root) with hlt | heq
    · exact .left _ _ (by simpa using hlt)
    · rw [graph_remove, heq, hroots, h]
      exact .right _ (by simp)

/-- Remove roots until there is none left. -/
def run (s : Removal) : Removal :=
  match _h : s.roots with
  | [] => s
  | root :: rest => (s.remove root rest).run
termination_by (s.graph.size, s.roots.length)
decreasing_by exact s.remove_lt _h

theorem run_of_roots_nil {s : Removal} (h : s.roots = []) : s.run = s := by
  rw [run]
  split <;> simp_all

theorem run_of_roots_cons {s : Removal} {root : String} {rest : List String}
    (h : s.roots = root :: rest) : s.run = (s.remove root rest).run := by
  rw [run]
  split <;> simp_all

end Removal

namespace DependencyGraph

/-- The names on cycles and on paths from one cycle to another, of a graph in which something
refers to every name: names that refer to nothing in the graph are dropped until there is none. -/
def core (g : DependencyGraph) : DependencyGraph :=
  let kept := g.filter fun _ references => references.any g.contains
  if kept.size < g.size then core kept else g
termination_by g.size

end DependencyGraph

/-- Definitions cannot be ordered, because they refer to each other in a cycle. -/
structure CyclicReferences where
  /-- The names on a cycle, or on a path from one cycle to another, in input order. -/
  names : List String
deriving DecidableEq

/-- The wording of the error. -/
def CyclicReferences.message (e : CyclicReferences) : String :=
  "cannot sort cyclic references: " ++ ", ".intercalate e.names

/-- Sort a list by a key. What has the same key keeps its order. -/
def sortByKey {α : Type u} {ρ : Type v} [Ord ρ] (key : α → ρ) (l : List α) : List α :=
  l.mergeSort fun a b => (compare (key a) (key b)).isLE

/-- Order definitions so that everything a definition refers to comes before it. The definitions are
sorted by the positions of their names in the order of the removal, so those that share a name stay
together, in the order in which they are given. -/
def topologicalSort {α : Type u} [Dependent α] (items : List α) :
    Except CyclicReferences (List α) :=
  let final := (Removal.start (dependencyGraph items).proper).run
  if final.graph.size = 0 then
    let position := OrderedMap.ofList final.order.zipIdx
    .ok (sortByKey (fun d => position.get? (Dependent.name d)) items)
  else .error ⟨final.graph.core.keys⟩

end AsnModel
