import AsnModel.Proofs.Dependency.TopologicalSort
import Mathlib.Data.Set.Card
import Mathlib.Logic.Function.Iterate

/-!
# The loops of the topological sort

The topological sort removes roots in one loop, and drops what refers to nothing that is left in
another one. Both end. At the start of each iteration of the first loop the degrees, the roots and
the order agree with the names left, and while the references of a removed root are released one
after the other, each that has not been released counts one more than the names left that depend on
it, so that no degree is zero when it is made smaller.

## Main definitions

* `Removal.AtIteration` — the states in which the loop picks its next root.
* `Removal.LoopInvariant` — what holds of these states.
* `Removal.midway` — the states within an iteration.
* `Removal.Releasing` — what holds of these states.
* `DependencyGraph.dropSinks` — one iteration of the second loop.
-/

namespace AsnModel

universe u

namespace DependencyGraph

/-! ## Counting references -/

/-- The number of names that refer to `n`, as a cardinality. -/
theorem referrers_eq_ncard (g : DependencyGraph) (n : String) :
    g.referrers n = {a | g.Refers a n}.ncard := by
  let names := (g.entries.filter fun e => n ∈ e.2).map Prod.fst
  have hnodup : names.Nodup := g.nodup_keys.sublist (List.filter_sublist.map _)
  have hset : {a | g.Refers a n} = (names.toFinset : Set String) := by
    ext a
    simp [names, Refers]
  rw [hset, Set.ncard_coe_finset, List.toFinset_card_of_nodup hnodup, List.length_map, referrers,
    List.countP_eq_length_filter]

theorem count_flatMap_snd {entries : List (String × List String)} (h : ∀ e ∈ entries, e.2.Nodup)
    (n : String) : (entries.flatMap Prod.snd).count n = entries.countP fun e => n ∈ e.2 := by
  induction entries with
  | nil => rfl
  | cons e es ih =>
    obtain ⟨he, hes⟩ := List.forall_mem_cons.1 h
    rw [List.flatMap_cons, List.count_append, he.count, ih hes, List.countP_cons, Nat.add_comm]
    simp only [decide_eq_true_eq]

/-- Among all references in the graph, each name occurs once for every name that refers to it. -/
theorem IsProper.count_references {g : DependencyGraph} (hg : g.IsProper) (n : String) :
    (g.entries.flatMap Prod.snd).count n = g.referrers n :=
  count_flatMap_snd (fun _ he => hg.nodup he) n

end DependencyGraph

namespace Removal

/-! ## Iterations -/

/-- The loop that removes the roots of `g` is in the state `s` when it starts its iteration `k`,
counted from zero, or ends instead of it. -/
inductive AtIteration (g : DependencyGraph) : ℕ → Removal → Prop
  | start : AtIteration g 0 (start g)
  | next {k : ℕ} {s : Removal} {root : String} {rest : List String} : AtIteration g k s →
      s.roots = root :: rest → AtIteration g (k + 1) (s.remove root rest)

namespace AtIteration

variable {g : DependencyGraph} {k : ℕ} {s : Removal}

theorem invariant (h : AtIteration g k s) (hg : g.IsProper) : Invariant g s := by
  induction h with
  | start => exact .start g
  | next _ hroots ih => exact ih.remove hg hroots

theorem length_order (h : AtIteration g k s) : s.order.length = k := by
  induction h with
  | start => rfl
  | next _ _ ih => rw [order_remove, List.length_cons, ih]

/-- What is left of the loop does not depend on where it is. -/
theorem run_eq (h : AtIteration g k s) : s.run = (Removal.start g).run := by
  induction h with
  | start => rfl
  | next _ hroots ih => rw [← run_of_roots_cons hroots, ih]

/-- The loop gets to the state in which it has no roots left. -/
theorem run (h : AtIteration g k s) : ∃ k', AtIteration g k' s.run := by
  fun_induction Removal.run s generalizing k with
  | case1 s hroots => exact ⟨k, h⟩
  | case2 s root rest hroots ih => exact ih (h.next hroots)

end AtIteration

/-- The names in order and the names left are the names there were. -/
theorem Invariant.length_order_add_size {g : DependencyGraph} {s : Removal} (h : Invariant g s) :
    s.order.length + s.graph.size = g.size := by
  have hperm : (s.order ++ s.graph.keys).Perm g.keys := by
    refine (List.perm_ext_iff_of_nodup ?_ g.nodup_keys).2 fun n => ?_
    · refine List.nodup_append'.2 ⟨h.nodup_order, s.graph.nodup_keys, fun n hn hkey => ?_⟩
      exact ((h.mem_keys_iff n).1 hkey).2 hn
    · rw [List.mem_append, h.mem_keys_iff]
      have hmem := h.mem_keys_of_order n
      tauto
  rw [← OrderedMap.length_keys, ← OrderedMap.length_keys, ← List.length_append]
  exact hperm.length_eq

section Definitions

variable {α : Type u} [Dependent α] {items : List α} {s : Removal}

/-! ## At the start of an iteration -/

/-- The names left in the graph that depend on `n`. -/
def dependentsLeft (items : List α) (s : Removal) (n : String) : Set String :=
  {a | a ∈ s.graph.keys ∧ DependsOn items a n}

@[simp] theorem graph_release (s : Removal) (r : String) : (s.release r).graph = s.graph := rfl

@[simp] theorem dependentsLeft_release (items : List α) (s : Removal) (r n : String) :
    (s.release r).dependentsLeft items n = s.dependentsLeft items n := rfl

/-- What holds whenever the loop picks the next root to remove from the graph of `items`. -/
structure LoopInvariant (items : List α) (s : Removal) : Prop where
  /-- The names left are stored with the references they had at the start. -/
  graph_eq : s.graph = (dependencyGraph items).proper.filter fun n _ => n ∉ s.order
  degree_eq : ∀ n ∈ s.graph.keys, s.degree n = (s.dependentsLeft items n).ncard
  nodup_roots : s.roots.Nodup
  mem_roots : ∀ n, n ∈ s.roots ↔ n ∈ s.graph.keys ∧ s.degree n = 0
  nodup_order : s.order.Nodup
  /-- Just the names that are not left have been put in order. -/
  mem_order : ∀ n, n ∈ s.order ↔ n ∈ items.map Dependent.name ∧ n ∉ s.graph.keys
  not_dependsOn : ∀ a ∈ s.graph.keys, ∀ b ∈ s.order, ¬ DependsOn items a b

theorem referrers_eq_ncard_dependentsLeft
    (h : ∀ a references, (a, references) ∈ s.graph.entries →
      (a, references) ∈ (dependencyGraph items).proper.entries) (n : String) :
    s.graph.referrers n = (s.dependentsLeft items n).ncard := by
  rw [DependencyGraph.referrers_eq_ncard]
  congr 1
  ext a
  rw [Set.mem_ofPred_eq, dependentsLeft, Set.mem_ofPred_eq, ← refers_proper_dependencyGraph_iff]
  constructor
  · rintro ⟨references, hentry, hn⟩
    exact ⟨OrderedMap.mem_keys_of_mem_entries hentry, references, h a references hentry, hn⟩
  · rintro ⟨hkey, hrefers⟩
    obtain ⟨references, hentry⟩ := (OrderedMap.mem_keys_iff _ _).1 hkey
    have hn := (DependencyGraph.refers_iff_of_mem (h a references hentry)).1 hrefers
    exact ⟨references, hentry, hn⟩

theorem Invariant.loopInvariant (h : Invariant (dependencyGraph items).proper s) :
    LoopInvariant items s where
  graph_eq := h.graph_eq
  degree_eq n hn := by
    rw [h.degree_eq n hn]
    exact referrers_eq_ncard_dependentsLeft (fun a rs hrs => ((h.mem_entries_iff a rs).1 hrs).1) n
  nodup_roots := h.nodup_roots
  mem_roots n := by
    rw [h.mem_roots]
    exact and_congr_right fun hn => by rw [h.degree_eq n hn]
  nodup_order := h.nodup_order
  mem_order n := by
    rw [h.mem_keys_iff, ← mem_keys_dependencyGraph, ← DependencyGraph.keys_proper]
    have hmem := h.mem_keys_of_order n
    tauto
  not_dependsOn a ha b hb hab :=
    h.not_refers a ha b hb ((refers_proper_dependencyGraph_iff items a b).2 hab)

/-! ## Within an iteration -/

/-- The state in the removal of `root` when the references in `released` have been released. -/
def midway (s : Removal) (root : String) (rest released : List String) : Removal :=
  released.foldl release { s with graph := s.graph.erase root, roots := rest }

/-- When all references have been released, the root is put in order. -/
theorem remove_eq_midway {root : String} {references : List String} (rest : List String)
    (hget : s.graph.get? root = some references) :
    s.remove root rest = { s.midway root rest references with order := root :: s.order } := by
  rw [remove, hget, midway, Option.getD_some, order_foldl_release]

/-- What holds while the references of a root are released and those in `pending` are still to
come. -/
structure Releasing (items : List α) (pending : List String) (s : Removal) : Prop where
  /-- Each pending reference counts one name that is not left any more. -/
  degree_eq : ∀ n ∈ s.graph.keys,
    s.degree n = (s.dependentsLeft items n).ncard + if n ∈ pending then 1 else 0
  nodup_pending : pending.Nodup
  mem_keys_of_pending : ∀ r ∈ pending, r ∈ s.graph.keys
  nodup_roots : s.roots.Nodup
  mem_roots : ∀ n, n ∈ s.roots ↔ n ∈ s.graph.keys ∧ s.degree n = 0

namespace Releasing

variable {r : String} {pending : List String}

/-- The next reference to release has not been counted down to zero. -/
theorem degree_pos (h : Releasing items (r :: pending) s) : 0 < s.degree r := by
  rw [h.degree_eq r (h.mem_keys_of_pending r List.mem_cons_self), if_pos List.mem_cons_self]
  exact Nat.succ_pos _

/-- The first references are released once the root has been taken from the graph. -/
theorem start (h : Invariant (dependencyGraph items).proper s) {root : String}
    {rest references : List String} (hroots : s.roots = root :: rest)
    (hget : s.graph.get? root = some references) :
    Releasing items references (s.midway root rest []) := by
  have hg := isProper_proper_dependencyGraph items
  have hentry := (OrderedMap.get?_eq_some_iff _ _ _).1 hget
  have hentry' := ((h.mem_entries_iff _ _).1 hentry).1
  have hkey := OrderedMap.mem_keys_of_mem_entries hentry
  have hrest : root ∉ rest ∧ rest.Nodup := List.nodup_cons.1 (hroots ▸ h.nodup_roots)
  have hmem_erase : ∀ n, n ∈ (s.midway root rest []).graph.keys ↔ n ∈ s.graph.keys ∧ n ≠ root := by
    simp [midway, OrderedMap.keys_erase]
  constructor
  case degree_eq =>
    intro n hn
    have hsubset : ∀ a rs, (a, rs) ∈ (s.graph.erase root).entries →
        (a, rs) ∈ (dependencyGraph items).proper.entries := fun a rs hrs =>
      ((h.mem_entries_iff a rs).1 ((OrderedMap.mem_entries_filter _ _ _ _).1 hrs).1).1
    rw [← referrers_eq_ncard_dependentsLeft hsubset]
    exact (h.degree_eq n ((hmem_erase n).1 hn).1).trans
      (DependencyGraph.referrers_eq_referrers_erase hentry n)
  case nodup_pending => exact hg.nodup hentry'
  case mem_keys_of_pending =>
    intro r hr
    have hrefers : (dependencyGraph items).proper.Refers root r := ⟨references, hentry', hr⟩
    exact (hmem_erase r).2 ⟨h.mem_keys_of_refers hg hkey hrefers, hg.ne hrefers⟩
  case nodup_roots => exact hrest.2
  case mem_roots =>
    intro n
    have hmem : n ∈ s.roots ↔ n ∈ s.graph.keys ∧ s.degree n = 0 := h.loopInvariant.mem_roots n
    rw [hroots, List.mem_cons] at hmem
    rw [hmem_erase]
    change n ∈ rest ↔ (n ∈ s.graph.keys ∧ n ≠ root) ∧ s.degree n = 0
    have hne : n ∈ rest → n ≠ root := fun hn => ne_of_mem_of_not_mem hn hrest.1
    tauto

/-- Releasing one reference counts it down, so that it is no longer pending. -/
theorem release (h : Releasing items (r :: pending) s) : Releasing items pending (s.release r) := by
  obtain ⟨hr, hpending⟩ := List.nodup_cons.1 h.nodup_pending
  obtain ⟨hkey, hkeys⟩ := List.forall_mem_cons.1 h.mem_keys_of_pending
  -- What is counted down has not been a root.
  have hroot : r ∉ s.roots := fun hmem => h.degree_pos.ne' ((h.mem_roots r).1 hmem).2
  have hdegree : ∀ n, (s.release r).degree n = if n = r then s.degree r - 1 else s.degree n :=
    fun _ => rfl
  have hroots : (s.release r).roots = if s.degree r - 1 = 0 then r :: s.roots else s.roots := rfl
  constructor
  case degree_eq =>
    intro n hn
    rw [hdegree, dependentsLeft_release]
    have hcount := h.degree_eq n hn
    by_cases hnr : n = r
    · subst hnr
      rw [if_pos List.mem_cons_self] at hcount
      rw [if_pos rfl, if_neg hr, hcount, Nat.add_sub_cancel, Nat.add_zero]
    · rw [if_neg hnr, hcount]
      simp only [List.mem_cons, hnr, false_or]
  case nodup_pending => exact hpending
  case mem_keys_of_pending => exact hkeys
  case nodup_roots =>
    rw [hroots]
    split_ifs
    · exact List.nodup_cons.2 ⟨hroot, h.nodup_roots⟩
    · exact h.nodup_roots
  case mem_roots =>
    intro n
    rw [hdegree, hroots, graph_release]
    by_cases hnr : n = r
    · subst hnr
      rw [if_pos rfl]
      split_ifs with hzero <;> simp [hzero, hkey, hroot]
    · split_ifs <;> simp [hnr, h.mem_roots n]

/-- What holds before references are released holds at each of them. -/
theorem foldl_release {released : List String} (h : Releasing items (released ++ pending) s) :
    Releasing items pending (released.foldl Removal.release s) := by
  induction released generalizing s with
  | nil => exact h
  | cons r rs ih => exact ih h.release

end Releasing

theorem Invariant.releasing_midway (h : Invariant (dependencyGraph items).proper s) {root : String}
    {rest released pending : List String} (hroots : s.roots = root :: rest)
    (hget : s.graph.get? root = some (released ++ pending)) :
    Releasing items pending (s.midway root rest released) :=
  (Releasing.start h hroots hget).foldl_release

end Definitions

end Removal

/-! ## Dropping sinks -/

namespace DependencyGraph

/-- The names that refer to nothing that is left in the graph. -/
def sinks (g : DependencyGraph) : List String :=
  (g.entries.filter fun e => e.2.all fun r => !g.contains r).map Prod.fst

/-- Remove all sinks, one after the other. -/
def dropSinks (g : DependencyGraph) : DependencyGraph := g.sinks.foldl OrderedMap.erase g

theorem mem_sinks_iff {g : DependencyGraph} {n : String} {references : List String}
    (h : (n, references) ∈ g.entries) : n ∈ g.sinks ↔ references.any g.contains = false := by
  have hall : (references.all fun r => !g.contains r) = !references.any g.contains := by
    rw [List.not_any_eq_all_not]
  rw [← Bool.not_eq_true', ← hall]
  simp only [sinks, List.mem_map, List.mem_filter]
  constructor
  · rintro ⟨⟨_, rs⟩, ⟨hentry, hrs⟩, rfl⟩
    rw [← OrderedMap.get?_eq_some_iff] at h hentry
    rwa [← Option.some.inj (hentry.symm.trans h)]
  · exact fun hrs => ⟨_, ⟨h, hrs⟩, rfl⟩

theorem dropSinks_eq (g : DependencyGraph) :
    g.dropSinks = g.filter fun _ references => references.any g.contains := by
  rw [dropSinks, OrderedMap.foldl_erase]
  refine OrderedMap.eq_of_entries_eq (List.filter_congr fun e he => ?_)
  have hsink := mem_sinks_iff (show (e.1, e.2) ∈ g.entries from he)
  by_cases hany : e.2.any g.contains <;> simp_all

theorem size_dropSinks_add (g : DependencyGraph) :
    g.dropSinks.size + g.sinks.length = g.size := by
  have hall : ∀ references : List String,
      (references.all fun r => !g.contains r) = !references.any g.contains := fun references => by
    rw [List.not_any_eq_all_not]
  rw [dropSinks_eq, sinks, List.length_map]
  simp only [hall]
  exact (List.length_eq_length_filter_add _).symm

/-- The loop that drops sinks ends, with the core of the graph. -/
theorem exists_iterate_dropSinks (g : DependencyGraph) :
    ∃ k ≤ g.size, dropSinks^[k] g = g.core ∧ g.core.sinks = [] ∧
      ∀ j < k, (dropSinks^[j] g).sinks ≠ [] := by
  fun_induction core g with
  | case1 g kept hsize ih =>
    have hkept : kept = g.dropSinks := g.dropSinks_eq.symm
    rw [hkept] at hsize ih ⊢
    obtain ⟨k, hk, hiter, hnil, hne⟩ := ih
    refine ⟨k + 1, hk.trans_lt hsize, hiter, hnil, fun j hj => ?_⟩
    cases j with
    | zero =>
      have hadd := g.size_dropSinks_add
      change g.sinks ≠ []
      exact List.ne_nil_of_length_pos (by omega)
    | succ j => exact hne j (by omega)
  | case2 g kept hsize =>
    have hkept : kept = g.dropSinks := g.dropSinks_eq.symm
    rw [hkept] at hsize
    have hadd := g.size_dropSinks_add
    exact ⟨0, Nat.zero_le _, rfl, List.length_eq_zero_iff.1 (by omega), by simp⟩

end DependencyGraph

/-! ## Both loops -/

section Definitions

variable {α : Type u} [Dependent α]

/-- The degrees with which the topological sort starts to remove roots count all references in the
graph. Whenever an iteration starts, the degrees, roots and order agree with the names left. The
root that is picked is one of them. It is removed by counting down its references one after the
other, and each has a degree above zero when its turn comes. The loop ends, as one name less is left after each iteration, and so does the loop
that drops sinks. -/
theorem topologicalSort_loops (items : List α) :
    (∀ n, (Removal.start (dependencyGraph items).proper).degree n =
      ((dependencyGraph items).proper.entries.flatMap Prod.snd).count n) ∧
    (∀ k s, Removal.AtIteration (dependencyGraph items).proper k s →
      s.LoopInvariant items ∧ s.run = removalOf items ∧
      k + s.graph.size = (dependencyGraph items).proper.size ∧
      ∀ root rest, s.roots = root :: rest → ∃ references, s.graph.get? root = some references ∧
        s.remove root rest = { s.midway root rest references with order := root :: s.order } ∧
        ∀ released r pending, references = released ++ r :: pending →
          (s.midway root rest released).Releasing items (r :: pending) ∧
            0 < (s.midway root rest released).degree r) ∧
    (∃ k, Removal.AtIteration (dependencyGraph items).proper k (removalOf items) ∧
      (removalOf items).roots = []) ∧
    ∃ k ≤ (removalOf items).graph.size,
      DependencyGraph.dropSinks^[k] (removalOf items).graph = (removalOf items).graph.core ∧
        (removalOf items).graph.core.sinks = [] ∧
        ∀ j < k, (DependencyGraph.dropSinks^[j] (removalOf items).graph).sinks ≠ [] := by
  have hg := isProper_proper_dependencyGraph items
  refine ⟨fun n => (hg.count_references n).symm, fun k s hs => ?_, ?_,
    DependencyGraph.exists_iterate_dropSinks _⟩
  · have h := hs.invariant hg
    refine ⟨h.loopInvariant, hs.run_eq, hs.length_order ▸ h.length_order_add_size,
      fun root rest hroots => ?_⟩
    have hkey := ((h.mem_roots root).1 (hroots ▸ List.mem_cons_self)).1
    obtain ⟨references, hentry⟩ := (OrderedMap.mem_keys_iff _ _).1 hkey
    have hget := (OrderedMap.get?_eq_some_iff _ _ _).2 hentry
    refine ⟨references, hget, Removal.remove_eq_midway rest hget, ?_⟩
    rintro released r pending rfl
    have hreleasing := h.releasing_midway hroots hget
    exact ⟨hreleasing, hreleasing.degree_pos⟩
  · obtain ⟨k, hk⟩ := (Removal.AtIteration.start (g := (dependencyGraph items).proper)).run
    exact ⟨k, hk, ((Removal.Invariant.start _).run hg).2⟩

/-- While the references of a name with two definitions are released, the reference that both of
them have is released once, and the reference of a name to itself has no part in it. -/
theorem topologicalSort_loops_shared_name :
    let items : List Definition := [.ofUses "User" ["Tree", "INTEGER"], .ofUses "Tree" ["Tree"],
      .ofUses "User" ["Leaf", "Tree"], .ofUses "Leaf" ["Tree"]]
    let s := Removal.start (dependencyGraph items).proper
    s.roots = ["User"] ∧ s.graph.get? "User" = some (["Tree"] ++ "Leaf" :: []) ∧
      s.LoopInvariant items ∧ (s.midway "User" [] ["Tree"]).Releasing items ["Leaf"] ∧
      0 < (s.midway "User" [] ["Tree"]).degree "Leaf" := by
  intro items s
  have hroots : s.roots = ["User"] := by decide
  have hget : s.graph.get? "User" = some (["Tree"] ++ "Leaf" :: []) := by decide
  obtain ⟨hloop, -, -, hpick⟩ := (topologicalSort_loops items).2.1 0 s .start
  obtain ⟨references, hreferences, -, hreleasing⟩ := hpick "User" [] hroots
  have heq := Option.some.inj (hreferences.symm.trans hget)
  exact ⟨hroots, hget, hloop, hreleasing ["Tree"] "Leaf" [] heq⟩

end Definitions

end AsnModel
