import AsnModel.Proofs.Dependency.CyclicReferences
import AsnModel.Proofs.Dependency.DependencySort
import AsnModel.Proofs.Dependency.Renaming
import AsnModel.Proofs.Dependency.SelfEdges
import Mathlib.Data.List.Forall2
import Mathlib.Logic.Equiv.Fintype

/-!
# What the orders depend on

Names only tell which definitions a reference leads to, and definitions are only distinguished by
their positions. So both sorts put the positions of two lists into the same order if the lists have
the same references between defined names, whatever these names are. References to undefined names
have no effect at all, and those of a definition to itself only where a name is defined twice.

## Main definitions

* `sortedPositions` — the topological order, as positions in the list.
* `CorrespondUnder` — lists whose names and references differ in a change of names only.
-/

namespace AsnModel

universe u v

theorem map_eq_map_of_forall₂ {α : Type u} {β : Type v} {γ : Type*} {R : α → β → Prop} {f : α → γ}
    {g : β → γ} {xs : List α} {ys : List β} (h : List.Forall₂ R xs ys)
    (hfg : ∀ x y, R x y → f x = g y) : xs.map f = ys.map g := by
  rw [← List.forall₂_eq_eq_eq, List.forall₂_map_left_iff, List.forall₂_map_right_iff]
  exact h.imp hfg

/-! ## Positions -/

section Positions

variable {α : Type u} [Dependent α]

/-- The positions of the definitions of a name. -/
def positionsOf (items : List α) (n : String) : List ℕ :=
  (items.zipIdx.filter fun p => Dependent.name p = n).map Prod.snd

/-- The topological order of definitions that carry their positions along, as these positions. -/
def sortedPositions (items : List α) : Except CyclicReferences (List ℕ) :=
  (topologicalSort items.zipIdx).map (List.map Prod.snd)

/-- Positions are found by the names alone. -/
theorem positionsOf_eq_zipIdx (items : List α) (n : String) :
    positionsOf items n =
      ((items.map Dependent.name).zipIdx.filter fun p => p.1 = n).map Prod.snd := by
  rw [List.zipIdx_map, List.filter_map, List.map_map]
  rfl

theorem lastPosition?_eq_getLast? (items : List α) (n : String) :
    lastPosition? items n = (positionsOf items n).getLast? := List.getLast?_map.symm

/-- The positions of a name stand for its definitions. -/
theorem map_positionsOf (items : List α) (n : String) :
    (positionsOf items n).map (items[·]?) =
      (items.filter fun d => Dependent.name d = n).map some := by
  have hget : ∀ p ∈ items.zipIdx.filter fun p => Dependent.name p = n,
      items[p.2]? = some p.1 := by
    intro p hp
    exact List.mem_zipIdx_iff_getElem?.1 (List.mem_of_mem_filter hp)
  have hitems : (items.zipIdx.filter fun p => Dependent.name p = n).map Prod.fst =
      items.filter fun d => Dependent.name d = n := by
    conv_rhs => rw [← List.zipIdx_map_fst 0 items, List.filter_map]
    rfl
  rw [positionsOf, List.map_map, ← hitems, List.map_map]
  exact List.map_congr_left hget

/-- Definitions that carry something along have the graph that they have without it. -/
theorem dependencyGraph_map_fst {β : Type v} (l : List (α × β)) :
    dependencyGraph (l.map Prod.fst) = dependencyGraph l := List.foldl_map

theorem removalOf_zipIdx (items : List α) : removalOf items.zipIdx = removalOf items := by
  rw [removalOf, removalOf, ← dependencyGraph_map_fst, List.zipIdx_map_fst]

theorem sortedPositions_eq_ite (items : List α) :
    sortedPositions items =
      if (removalOf items).graph.size = 0 then
        .ok ((removalOf items).order.flatMap (positionsOf items))
      else .error ⟨(removalOf items).graph.core.keys⟩ := by
  rw [sortedPositions, topologicalSort_eq, removalOf_zipIdx]
  split_ifs
  · exact congrArg Except.ok List.map_flatMap
  · rfl

/-- The definitions in topological order are those at the sorted positions. -/
theorem map_topologicalSort (items : List α) :
    (topologicalSort items).map (List.map some) =
      (sortedPositions items).map (List.map (items[·]?)) := by
  rw [topologicalSort_eq, sortedPositions_eq_ite]
  split_ifs
  · simp only [Except.map, List.map_flatMap, map_positionsOf]
  · rfl

/-- An undefined name has no position. -/
theorem mem_names_of_lastPosition?_eq_some {items : List α} {n : String} {v : ℕ}
    (h : lastPosition? items n = some v) : n ∈ items.map Dependent.name := by
  obtain ⟨hv, rfl, -⟩ := (lastPosition?_eq_some_iff items n v).1 h
  exact List.mem_map_of_mem (List.getElem_mem hv)

/-- Of distinct names, each has its own position. -/
theorem lastPosition?_eq_some_iff_of_nodup {items : List α}
    (hnames : (items.map Dependent.name).Nodup) {v : ℕ} (hv : v < items.length) {n : String} :
    lastPosition? items n = some v ↔ n = Dependent.name items[v] := by
  rw [lastPosition?_eq_some_iff]
  constructor
  · rintro ⟨_, rfl, -⟩
    rfl
  · rintro rfl
    refine ⟨hv, rfl, fun k hk hlt => ?_⟩
    exact (List.pairwise_iff_getElem.1 (List.pairwise_map.1 hnames) v k hv hk hlt).symm

end Positions

/-! ## References -/

variable {α : Type u} {β : Type v} [Dependent α] [Dependent β]

/-- The references of a definition to names that are defined. -/
def definedReferences (items : List α) (d : α) : List String :=
  (Dependent.references d).filter fun n => n ∈ items.map Dependent.name

theorem properReferences_eq_filter (items : List α) (d : α) :
    properReferences items d = (definedReferences items d).filter (· ≠ Dependent.name d) := by
  rw [properReferences, definedReferences, List.filter_filter]

theorem filterMap_definedReferences (items : List α) (d : α) :
    (definedReferences items d).filterMap (lastPosition? items) =
      (Dependent.references d).filterMap (lastPosition? items) := by
  rw [definedReferences, List.filterMap_filter]
  refine List.filterMap_congr fun n _ => ?_
  cases hn : lastPosition? items n with
  | none => simp
  | some v => simp only [mem_names_of_lastPosition?_eq_some hn, decide_true, if_true]

/-- If names are distinct, the edges to other positions are the references to other names. -/
theorem otherEdges_positionEdges {items : List α} (hnames : (items.map Dependent.name).Nodup)
    (v : ℕ) : otherEdges (positionEdges items) v =
      (items.map fun d =>
        (properReferences items d).filterMap (lastPosition? items))[v]?.getD [] := by
  simp only [otherEdges, positionEdges, referencePositions, List.getElem?_toArray,
    List.getElem?_map]
  by_cases hv : v < items.length
  · simp only [List.getElem?_eq_getElem hv, Option.map_some, Option.getD_some]
    rw [List.filter_filterMap, properReferences, List.filterMap_filter]
    refine List.filterMap_congr fun n _ => ?_
    cases hn : lastPosition? items n with
    | none => simp
    | some w =>
      have hdefined := mem_names_of_lastPosition?_eq_some hn
      have hself : w = v ↔ n = Dependent.name items[v] := by
        rw [← lastPosition?_eq_some_iff_of_nodup hnames hv, hn, Option.some.injEq]
      simp [Option.filter, hself, hdefined]
  · simp [List.getElem?_eq_none (Nat.le_of_not_lt hv)]

/-! ## Corresponding lists -/

/-- The error under other names. -/
def CyclicReferences.rename (r : String → String) (e : CyclicReferences) : CyclicReferences :=
  ⟨e.names.map r⟩

/-- At each position there are definitions of corresponding names, whose references `f` and `g`
correspond in the same way. -/
def CorrespondUnder (r : String → String) (f : α → List String) (g : β → List String)
    (xs : List α) (ys : List β) : Prop :=
  List.Forall₂ (fun x y => Dependent.name y = r (Dependent.name x) ∧ g y = (f x).map r) xs ys

namespace CorrespondUnder

variable {r : String → String} {f : α → List String} {g : β → List String} {xs : List α}
  {ys : List β}

theorem names_eq (h : CorrespondUnder r f g xs ys) :
    ys.map Dependent.name = (xs.map Dependent.name).map r := by
  rw [List.map_map]
  exact (map_eq_map_of_forall₂ h fun _ _ hxy => hxy.1.symm).symm

/-- It only matters what happens to the defined names. -/
theorem congr {r' : String → String} (h : CorrespondUnder r f g xs ys)
    (hf : ∀ x, ∀ n ∈ f x, n ∈ xs.map Dependent.name)
    (hrr' : ∀ n ∈ xs.map Dependent.name, r n = r' n) : CorrespondUnder r' f g xs ys := by
  refine ((List.forall₂_and_left xs ys).2 ⟨fun x hx => hx, h⟩).imp ?_
  rintro x y ⟨hx, hname, hreferences⟩
  refine ⟨hname.trans (hrr' _ (List.mem_map_of_mem hx)), hreferences.trans ?_⟩
  exact List.map_congr_left fun n hn => hrr' n (hf x n hn)

theorem flatMap_filter_eq (h : CorrespondUnder r f g xs ys) (hr : Function.Injective r)
    (n : String) : (ys.filter fun y => Dependent.name y = r n).flatMap g =
      ((xs.filter fun x => Dependent.name x = n).flatMap f).map r := by
  induction h with
  | nil => rfl
  | @cons x y xs ys hxy _ ih =>
    simp only [List.filter_cons, hxy.1, hr.eq_iff]
    split_ifs
    · rw [List.flatMap_cons, List.flatMap_cons, List.map_append, hxy.2, ih]
    · exact ih

variable (hr : Function.Injective r)

include hr

theorem mem_names_iff (h : CorrespondUnder r f g xs ys) (n : String) :
    r n ∈ ys.map Dependent.name ↔ n ∈ xs.map Dependent.name := by
  rw [h.names_eq, List.mem_map_of_injective hr]

theorem positionsOf_eq (h : CorrespondUnder r f g xs ys) (n : String) :
    positionsOf ys (r n) = positionsOf xs n := by
  rw [positionsOf_eq_zipIdx, positionsOf_eq_zipIdx, h.names_eq, List.zipIdx_map,
    filter_map_comm (p := fun p => decide (p.1 = n)) (fun p => by simp [hr.eq_iff]), List.map_map]
  rfl

/-- References to other names correspond if all references to defined names do. -/
theorem proper (h : CorrespondUnder r (definedReferences xs) (definedReferences ys) xs ys) :
    CorrespondUnder r (properReferences xs) (properReferences ys) xs ys := by
  refine List.Forall₂.imp (fun x y hxy => ⟨hxy.1, ?_⟩) h
  rw [properReferences_eq_filter, properReferences_eq_filter, hxy.1, hxy.2]
  exact filter_map_comm (fun n => by simp [hr.eq_iff]) _

/-! ## The topological order -/

section Topological

variable (h : CorrespondUnder r (properReferences xs) (properReferences ys) xs ys)

include h

theorem proper_dependencyGraph_eq :
    (dependencyGraph ys).proper = (dependencyGraph xs).proper.rename hr := by
  refine DependencyGraph.eq_rename_of_get? hr ?_ fun n _ => ?_
  · rw [DependencyGraph.keys_proper, DependencyGraph.keys_proper, keys_dependencyGraph,
      keys_dependencyGraph, h.names_eq, eraseDups_map hr]
  · rw [get?_proper_dependencyGraph, get?_proper_dependencyGraph, h.flatMap_filter_eq hr,
      eraseDups_map hr]
    simp only [h.mem_names_iff hr]
    split_ifs <;> rfl

/-- The removals of names go the same way. -/
theorem renamed_removalOf : Removal.Renamed r (removalOf xs) (removalOf ys) := by
  have hgraph := DependencyGraph.renamedTo_rename hr (dependencyGraph xs).proper
  rw [removalOf, removalOf, h.proper_dependencyGraph_eq hr]
  refine (Removal.Renamed.start hr hgraph ?_).run hr
  simp only [Removal.start, DependencyGraph.keys_rename, List.map_reverse]
  refine congrArg List.reverse (filter_map_comm (fun n => ?_) _)
  rw [hgraph.referrers_eq hr]

/-- The names that are left at the end correspond, and have the same order. -/
theorem graph_removalOf_eq : (removalOf ys).graph = (removalOf xs).graph.rename hr := by
  -- Corresponding states leave the order of the entries open, so it is taken from the first graph.
  rw [(invariant_removalOf ys).graph_eq, (invariant_removalOf xs).graph_eq,
    (h.renamed_removalOf hr).order, h.proper_dependencyGraph_eq hr]
  refine DependencyGraph.filter_rename hr _ fun n _ => ?_
  simp [hr.eq_iff]

theorem sortedPositions_eq :
    sortedPositions ys = (sortedPositions xs).mapError (CyclicReferences.rename r) := by
  rw [sortedPositions_eq_ite, sortedPositions_eq_ite, h.graph_removalOf_eq hr,
    (h.renamed_removalOf hr).order, DependencyGraph.size_rename, DependencyGraph.core_rename,
    DependencyGraph.keys_rename, List.flatMap_map]
  simp only [h.positionsOf_eq hr]
  split_ifs <;> rfl

end Topological

/-! ## The components -/

theorem lastPosition?_eq (h : CorrespondUnder r f g xs ys) (n : String) :
    lastPosition? ys (r n) = lastPosition? xs n := by
  rw [lastPosition?_eq_getLast?, lastPosition?_eq_getLast?, h.positionsOf_eq hr]

/-- Corresponding references lead to the same positions. -/
theorem map_filterMap_lastPosition? (h : CorrespondUnder r f g xs ys) :
    (ys.map fun y => (g y).filterMap (lastPosition? ys)) =
      xs.map fun x => (f x).filterMap (lastPosition? xs) := by
  refine (map_eq_map_of_forall₂ h fun x y hxy => ?_).symm
  rw [hxy.2, List.filterMap_map]
  exact List.filterMap_congr fun n _ => (h.lastPosition?_eq hr n).symm

theorem componentPositions_eq
    (h : CorrespondUnder r (definedReferences xs) (definedReferences ys) xs ys) :
    componentPositions ys = componentPositions xs := by
  have hreferences : referencePositions ys = referencePositions xs := by
    simpa only [filterMap_definedReferences, referencePositions] using
      h.map_filterMap_lastPosition? hr
  simp only [componentPositions, hreferences, List.Forall₂.length_eq h]

/-- If names are distinct, references to other names are enough. -/
theorem componentPositions_eq_of_nodup
    (h : CorrespondUnder r (properReferences xs) (properReferences ys) xs ys)
    (hnames : (xs.map Dependent.name).Nodup) :
    componentPositions ys = componentPositions xs := by
  have hnames' : (ys.map Dependent.name).Nodup := by
    rw [h.names_eq]
    exact hnames.map hr
  have hedges : otherEdges (positionEdges ys) = otherEdges (positionEdges xs) := by
    funext v
    rw [otherEdges_positionEdges hnames', otherEdges_positionEdges hnames,
      h.map_filterMap_lastPosition? hr]
  calc
    componentPositions ys = strongComponents ys.length (otherEdges (positionEdges ys)) :=
      (strongComponents_otherEdges (lt_length_of_mem_positionEdges ys)).symm
    _ = strongComponents xs.length (otherEdges (positionEdges xs)) := by
      rw [hedges, List.Forall₂.length_eq h]
    _ = componentPositions xs := strongComponents_otherEdges (lt_length_of_mem_positionEdges xs)

end CorrespondUnder

/-! ## Changes of the defined names -/

/-- A change of some names that keeps them apart is part of one that keeps all names apart. -/
theorem exists_injective_of_injOn {r : String → String} {names : List String}
    (hr : Set.InjOn r {n | n ∈ names}) :
    ∃ r', Function.Injective r' ∧ ∀ n ∈ names, r n = r' n := by
  obtain ⟨σ, hσ⟩ := Equiv.Perm.exists_extending_pair (fun n : {n // n ∈ names} => n.1)
    (fun n => r n.1) Subtype.val_injective hr.injective
  exact ⟨σ, σ.injective, fun n hn => (hσ ⟨n, hn⟩).symm⟩

theorem mem_names_of_sortedPositions {items : List α} {e : CyclicReferences}
    (h : sortedPositions items = .error e) {n : String} (hn : n ∈ e.names) :
    n ∈ items.map Dependent.name := by
  rw [sortedPositions_eq_ite] at h
  split_ifs at h
  obtain rfl := Except.error.inj h
  have hleft := (removalOf items).graph.keys_core_sublist.subset hn
  have hkey := ((invariant_removalOf items).mem_keys_iff n).1 hleft
  rw [DependencyGraph.keys_proper, mem_keys_dependencyGraph] at hkey
  exact hkey.1

theorem mapError_rename_congr {r r' : String → String} {items : List α}
    (h : ∀ n ∈ items.map Dependent.name, r n = r' n) :
    (sortedPositions items).mapError (CyclicReferences.rename r) =
      (sortedPositions items).mapError (CyclicReferences.rename r') := by
  cases hsorted : sortedPositions items with
  | ok _ => rfl
  | error e =>
    have hnames : e.names.map r = e.names.map r' :=
      List.map_congr_left fun n hn => h n (mem_names_of_sortedPositions hsorted hn)
    simp only [Except.mapError, CyclicReferences.rename, hnames]

/-- Lists with the same references between defined names, up to a change of these names, have the
same orders. -/
theorem eq_of_correspondUnder_definedReferences {r : String → String} {xs : List α} {ys : List β}
    (hr : Set.InjOn r {n | n ∈ xs.map Dependent.name})
    (h : CorrespondUnder r (definedReferences xs) (definedReferences ys) xs ys) :
    componentPositions ys = componentPositions xs ∧
      sortedPositions ys = (sortedPositions xs).mapError (CyclicReferences.rename r) := by
  obtain ⟨r', hr', hrr'⟩ := exists_injective_of_injOn hr
  -- `r` may send an undefined name to where a defined one goes, so `r'` takes its place.
  have h' : CorrespondUnder r' (definedReferences xs) (definedReferences ys) xs ys := by
    refine h.congr (fun x n hn => ?_) hrr'
    simpa using (List.mem_filter.1 hn).2
  rw [mapError_rename_congr hrr']
  exact ⟨h'.componentPositions_eq hr', (h'.proper hr').sortedPositions_eq hr'⟩

theorem mapError_rename_id {γ : Type*} (result : Except CyclicReferences γ) :
    result.mapError (CyclicReferences.rename id) = result := by
  cases result with
  | ok _ => rfl
  | error e => simp only [Except.mapError, CyclicReferences.rename, List.map_id]

/-- Both sorts give the definitions at certain positions. These are the same for lists that have the
same references between defined names at each position, up to a change of these names that keeps
them apart, and the names of an error change alike. In particular, undefined references have no
effect on either sort, and references of definitions to themselves have none on the topological
order, and none on the components of distinct names. -/
theorem sorts_depend_on_references (xs : List α) (ys : List β) :
    ((dependencySort xs).map (List.map some) = (componentPositions xs).map (List.map (xs[·]?)) ∧
        (topologicalSort xs).map (List.map some) =
          (sortedPositions xs).map (List.map (xs[·]?))) ∧
      ((dependencySort ys).map (List.map some) = (componentPositions ys).map (List.map (ys[·]?)) ∧
        (topologicalSort ys).map (List.map some) =
          (sortedPositions ys).map (List.map (ys[·]?))) ∧
      (∀ r, Set.InjOn r {n | n ∈ xs.map Dependent.name} →
        CorrespondUnder r (definedReferences xs) (definedReferences ys) xs ys →
          componentPositions ys = componentPositions xs ∧
            sortedPositions ys = (sortedPositions xs).mapError (CyclicReferences.rename r)) ∧
      (CorrespondUnder id (definedReferences xs) (definedReferences ys) xs ys →
        componentPositions ys = componentPositions xs ∧
          sortedPositions ys = sortedPositions xs) ∧
      (CorrespondUnder id (properReferences xs) (properReferences ys) xs ys →
        sortedPositions ys = sortedPositions xs ∧
          ((xs.map Dependent.name).Nodup → componentPositions ys = componentPositions xs)) := by
  refine ⟨⟨map_dependencySort xs, map_topologicalSort xs⟩,
    ⟨map_dependencySort ys, map_topologicalSort ys⟩,
    fun r hr h => eq_of_correspondUnder_definedReferences hr h, fun h => ?_, fun h => ⟨?_, ?_⟩⟩
  · have heq := eq_of_correspondUnder_definedReferences (Set.injOn_id _) h
    rwa [mapError_rename_id] at heq
  · have heq := h.sortedPositions_eq Function.injective_id
    rwa [mapError_rename_id] at heq
  · exact h.componentPositions_eq_of_nodup Function.injective_id

/-- Two definitions on a cycle: under other names, with other references to undefined names, and with
other references to themselves. -/
theorem sorts_depend_on_references_cycle :
    let r := fun n => if n = "User" then "Person" else if n = "Tree" then "Plant" else n
    let xs : List Definition := [.ofUses "User" ["Tree", "INTEGER"],
      .ofUses "Tree" ["Tree", "User", "Leaf"], .ofUses "Leaf" []]
    let renamed : List Definition := [.ofUses "Person" ["Plant"],
      .ofUses "Plant" ["Plant", "Person", "Date", "Leaf"], .ofUses "Leaf" ["User"]]
    let undefined : List Definition := [.ofUses "User" ["Tree"],
      .ofUses "Tree" ["Tree", "User", "Date", "Leaf"], .ofUses "Leaf" ["INTEGER"]]
    let self : List Definition := [.ofUses "User" ["User", "Tree"],
      .ofUses "Tree" ["User", "Leaf"], .ofUses "Leaf" ["Leaf"]]
    (Set.InjOn r {n | n ∈ xs.map Dependent.name} ∧
        CorrespondUnder r (definedReferences xs) (definedReferences renamed) xs renamed ∧
        componentPositions renamed = [[2], [1, 0]] ∧
        sortedPositions renamed = .error ⟨["Person", "Plant"]⟩) ∧
      (CorrespondUnder id (definedReferences xs) (definedReferences undefined) xs undefined ∧
        componentPositions undefined = [[2], [1, 0]] ∧
        sortedPositions undefined = .error ⟨["User", "Tree"]⟩) ∧
      (CorrespondUnder id (properReferences xs) (properReferences self) xs self ∧
        (xs.map Dependent.name).Nodup ∧ componentPositions self = [[2], [1, 0]] ∧
        sortedPositions self = .error ⟨["User", "Tree"]⟩) := by
  intro r xs renamed undefined self
  have hcomponents : componentPositions xs = [[2], [1, 0]] := by decide
  have hcycle : sortedPositions xs = .error ⟨["User", "Tree"]⟩ := by cbv
  have hnames : (xs.map Dependent.name).Nodup := by decide
  have hr : Set.InjOn r {n | n ∈ xs.map Dependent.name} := by
    have hpairs : ∀ a ∈ xs.map Dependent.name, ∀ b ∈ xs.map Dependent.name, r a = r b → a = b := by
      decide
    exact fun a ha b hb => hpairs a ha b hb
  have hrenamed : CorrespondUnder r (definedReferences xs) (definedReferences renamed) xs renamed :=
    .cons (by decide) (.cons (by decide) (.cons (by decide) .nil))
  have hundefined :
      CorrespondUnder id (definedReferences xs) (definedReferences undefined) xs undefined :=
    .cons (by decide) (.cons (by decide) (.cons (by decide) .nil))
  have hself : CorrespondUnder id (properReferences xs) (properReferences self) xs self :=
    .cons (by decide) (.cons (by decide) (.cons (by decide) .nil))
  refine ⟨⟨hr, hrenamed, ?_⟩, ⟨hundefined, ?_⟩, hself, hnames, ?_⟩
  · obtain ⟨-, -, hsame, -, -⟩ := sorts_depend_on_references xs renamed
    obtain ⟨hpositions, hsorted⟩ := hsame r hr hrenamed
    refine ⟨hpositions.trans hcomponents, ?_⟩
    rw [hsorted, hcycle]
    rfl
  · obtain ⟨-, -, -, hsame, -⟩ := sorts_depend_on_references xs undefined
    obtain ⟨hpositions, hsorted⟩ := hsame hundefined
    exact ⟨hpositions.trans hcomponents, hsorted.trans hcycle⟩
  · obtain ⟨-, -, -, -, hsame⟩ := sorts_depend_on_references xs self
    obtain ⟨hsorted, hpositions⟩ := hsame hself
    exact ⟨(hpositions hnames).trans hcomponents, hsorted.trans hcycle⟩

end AsnModel
