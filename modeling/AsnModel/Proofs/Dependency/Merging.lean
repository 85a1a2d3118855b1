import AsnModel.Proofs.Dependency.Graph
import Mathlib.Data.List.Nodup

/-!
# Merging dependency graphs

The graph of a list of definitions lists each name where it occurs first, with the references of all
definitions of the name, each where it occurs first among them. So the graph of two lists, one
behind the other, is the graph of the first list with that of the second one merged into it.

## Main definitions

* `FirstOccurrences` — a list without its repetitions.
* `DependencyGraph.merge` — put the entries of one graph into another.
-/

namespace AsnModel

universe u

/-! ## First occurrences -/

section FirstOccurrences

variable {α : Type u} [DecidableEq α]

/-- The members of `l` are listed once each, in the order in which they occur first. -/
structure FirstOccurrences (l firsts : List α) : Prop where
  nodup : firsts.Nodup
  mem_iff : ∀ a, a ∈ firsts ↔ a ∈ l
  pairwise : firsts.Pairwise fun a b => l.idxOf a < l.idxOf b

theorem firstOccurrences_eraseDups (l : List α) : FirstOccurrences l l.eraseDups where
  nodup := nodup_eraseDups l
  mem_iff _ := List.mem_eraseDups
  pairwise := pairwise_idxOf_eraseDups l

/-- There is only one such list. -/
theorem firstOccurrences_iff {l firsts : List α} :
    FirstOccurrences l firsts ↔ firsts = l.eraseDups := by
  constructor
  · intro h
    have h' := firstOccurrences_eraseDups l
    have hmem : ∀ a, a ∈ firsts ↔ a ∈ l.eraseDups := fun a => (h.mem_iff a).trans (h'.mem_iff a).symm
    have hperm := (List.perm_ext_iff_of_nodup h.nodup h'.nodup).2 hmem
    exact hperm.eq_of_pairwise (fun a b _ _ hab hba => absurd hab (Nat.lt_asymm hba)) h.pairwise
      h'.pairwise
  · rintro rfl
    exact firstOccurrences_eraseDups l

theorem eraseDups_append_eraseDups (l l' : List α) :
    (l ++ l'.eraseDups).eraseDups = (l ++ l').eraseDups := by
  rw [List.eraseDups_append, List.eraseDups_append, List.removeAll, List.removeAll,
    filter_eraseDups, eraseDups_of_nodup (nodup_eraseDups _)]

end FirstOccurrences

/-! ## Merging -/

namespace DependencyGraph

/-- Add an entry to a graph. A key that is there keeps its place and gets the new references behind
its own, without repetitions. A new key goes to the end. -/
def addEntry (g : DependencyGraph) (e : String × List String) : DependencyGraph :=
  g.alter e.1 fun references => (references.getD [] ++ e.2).eraseDups

/-- Merge one graph into another, key by key. -/
def merge (g h : DependencyGraph) : DependencyGraph := h.entries.foldl addEntry g

theorem get?_addEntry (g : DependencyGraph) (e : String × List String) (name : String) :
    (g.addEntry e).get? name =
      if name = e.1 then some (((g.get? e.1).getD [] ++ e.2).eraseDups) else g.get? name :=
  g.get?_alter e.1 name _

/-- Entries of other keys do not change what a key finds. -/
theorem get?_foldl_addEntry {es : List (String × List String)} {name : String}
    (h : name ∉ es.map Prod.fst) (g : DependencyGraph) :
    (es.foldl addEntry g).get? name = g.get? name := by
  induction es generalizing g with
  | nil => rfl
  | cons e es ih =>
    rw [List.map_cons, List.mem_cons, not_or] at h
    rw [List.foldl_cons, ih h.2, get?_addEntry, if_neg h.1]

/-- A key that is merged in gets its references, and any other key finds what it found. -/
theorem get?_merge (g h : DependencyGraph) (name : String) :
    (g.merge h).get? name =
      match h.get? name with
      | some references => some (((g.get? name).getD [] ++ references).eraseDups)
      | none => g.get? name := by
  cases hname : h.get? name with
  | none => exact get?_foldl_addEntry ((h.get?_eq_none_iff name).1 hname) g
  | some references =>
    -- The entries before and behind the one of the key are entries of other keys.
    obtain ⟨before, after, hsplit⟩ := List.append_of_mem ((h.get?_eq_some_iff _ _).1 hname)
    have hnodup : (before.map Prod.fst ++ name :: after.map Prod.fst).Nodup := by
      simpa [hsplit] using h.nodup_keys
    obtain ⟨hothers, -⟩ := List.nodup_cons.1 (List.nodup_middle.1 hnodup)
    rw [List.mem_append, not_or] at hothers
    rw [merge, hsplit, List.foldl_append, List.foldl_cons, get?_foldl_addEntry hothers.2,
      get?_addEntry, if_pos rfl, get?_foldl_addEntry hothers.1]

theorem keys_foldl_addEntry (g : DependencyGraph) (es : List (String × List String)) :
    (es.foldl addEntry g).keys = (g.keys ++ es.map Prod.fst).eraseDups := by
  induction es using List.reverseRecOn with
  | nil =>
    rw [List.map_nil, List.append_nil]
    exact (eraseDups_of_nodup g.nodup_keys).symm
  | append_singleton es e ih =>
    rw [List.foldl_concat, addEntry, OrderedMap.keys_alter, ih, List.map_append,
      List.map_singleton, ← List.append_assoc, eraseDups_concat]
    simp only [List.mem_eraseDups]

/-- The keys of the first graph come first, and then those that are new. -/
theorem keys_merge (g h : DependencyGraph) : (g.merge h).keys = (g.keys ++ h.keys).eraseDups :=
  keys_foldl_addEntry g h.entries

end DependencyGraph

/-! ## Graphs of definitions -/

section Definitions

variable {α : Type u} [Dependent α]

/-- The references of all definitions of a name, one definition after the other. -/
def referencesOf (items : List α) (name : String) : List String :=
  (items.filter fun d => Dependent.name d = name).flatMap Dependent.references

theorem referencesOf_append (xs ys : List α) (name : String) :
    referencesOf (xs ++ ys) name = referencesOf xs name ++ referencesOf ys name := by
  rw [referencesOf, List.filter_append, List.flatMap_append, referencesOf, referencesOf]

theorem referencesOf_eq_nil {items : List α} {name : String}
    (h : name ∉ items.map Dependent.name) : referencesOf items name = [] := by
  have hnone : items.filter (fun d => Dependent.name d = name) = [] := by
    rw [List.filter_eq_nil_iff]
    intro d hd hname
    exact h (List.mem_map.2 ⟨d, hd, by simpa using hname⟩)
  rw [referencesOf, hnone, List.flatMap_nil]

theorem get?_dependencyGraph_eq (items : List α) (name : String) :
    (dependencyGraph items).get? name =
      if name ∈ items.map Dependent.name then some (referencesOf items name).eraseDups else none :=
  get?_dependencyGraph items name

theorem mem_entries_dependencyGraph_iff {items : List α} {name : String}
    {references : List String} :
    (name, references) ∈ (dependencyGraph items).entries ↔
      name ∈ items.map Dependent.name ∧ FirstOccurrences (referencesOf items name) references := by
  rw [← OrderedMap.get?_eq_some_iff, get?_dependencyGraph_eq, firstOccurrences_iff]
  split_ifs with hname
  · rw [Option.some.injEq, eq_comm]
    exact (and_iff_right hname).symm
  · simp only [hname, false_and]

/-- The graph of two lists of definitions is that of the first one with that of the second one
merged into it. -/
theorem dependencyGraph_append (xs ys : List α) :
    dependencyGraph (xs ++ ys) = (dependencyGraph xs).merge (dependencyGraph ys) := by
  have hkeys : (dependencyGraph (xs ++ ys)).keys =
      ((dependencyGraph xs).merge (dependencyGraph ys)).keys := by
    rw [DependencyGraph.keys_merge, keys_dependencyGraph, keys_dependencyGraph,
      keys_dependencyGraph, List.map_append, eraseDups_append_eraseDups,
      eraseDups_eraseDups_append]
  have hget : ∀ name, (dependencyGraph (xs ++ ys)).get? name =
      ((dependencyGraph xs).merge (dependencyGraph ys)).get? name := by
    intro name
    -- If `xs` does not define the name, it has no references to put in front.
    have hfirst : ((dependencyGraph xs).get? name).getD [] = (referencesOf xs name).eraseDups := by
      rw [get?_dependencyGraph_eq]
      split_ifs with hname
      · rfl
      · rw [referencesOf_eq_nil hname]
        rfl
    rw [DependencyGraph.get?_merge, hfirst]
    simp only [get?_dependencyGraph_eq, List.map_append, List.mem_append, referencesOf_append]
    by_cases hys : name ∈ ys.map Dependent.name
    · simp only [hys, or_true, if_true, eraseDups_append_eraseDups, eraseDups_eraseDups_append]
    · simp only [hys, or_false, if_false, referencesOf_eq_nil hys, List.append_nil]
  refine OrderedMap.eq_of_entries_eq ?_
  rw [OrderedMap.entries_eq_filterMap_keys, OrderedMap.entries_eq_filterMap_keys, hkeys]
  simp only [hget]

/-- The graph of a list of definitions has the names as keys, in the order in which they occur
first. Each name is stored with the references of all its definitions, wherever these stand, in the
order in which the references occur first. A list that is split in two has the graph of the first
part with that of the second part merged into it. -/
theorem dependencyGraph_merges_definitions (items xs ys : List α) :
    FirstOccurrences (items.map Dependent.name) (dependencyGraph items).keys ∧
    (∀ name references, (name, references) ∈ (dependencyGraph items).entries ↔
      name ∈ items.map Dependent.name ∧
        FirstOccurrences (referencesOf items name) references) ∧
    dependencyGraph (xs ++ ys) = (dependencyGraph xs).merge (dependencyGraph ys) :=
  ⟨firstOccurrences_iff.2 (keys_dependencyGraph items),
    fun _ _ => mem_entries_dependencyGraph_iff, dependencyGraph_append xs ys⟩

/-- Definitions of `A` on both sides of the split, with a name in between. -/
example :
    let xs : List Definition := [.ofUses "A" ["B"], .ofUses "C" []]
    let ys : List Definition := [.ofUses "D" ["A"], .ofUses "A" ["C", "B"]]
    (dependencyGraph (xs ++ ys)).entries = [("A", ["B", "C"]), ("C", []), ("D", ["A"])] ∧
      ((dependencyGraph xs).merge (dependencyGraph ys)).entries =
        [("A", ["B", "C"]), ("C", []), ("D", ["A"])] := by decide

end Definitions

end AsnModel
