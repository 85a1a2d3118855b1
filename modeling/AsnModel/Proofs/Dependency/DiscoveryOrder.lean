import AsnModel.Proofs.Dependency.DependencySort
import AsnModel.Proofs.Dependency.DepthFirst
import AsnModel.Proofs.Dependency.Graph

/-!
# The order of the components

The search for components discovers and leaves positions exactly as a plain depth-first search does.
Its stack lists positions in the order of discovery, and a component is cut off the stack when the
member that was discovered first is left. Hence a component lists its members from the last to the
first discovered, and the components are listed as those first members are finished.

## Main definitions

* `Search.Shadows` — the search for components is in step with a plain depth-first search.
-/

namespace AsnModel

/-- What is kept of a list without repetitions stands in the order of the list. -/
theorem pairwise_idxOf_of_sublist {β : Type*} [DecidableEq β] {l l' : List β} (hl : l.Nodup)
    (h : l'.Sublist l) : l'.Pairwise fun a b => l.idxOf a < l.idxOf b := by
  have horder := pairwise_idxOf_eraseDups l
  rw [eraseDups_of_nodup hl] at horder
  exact horder.sublist h

namespace Search

variable {count fuel : ℕ} {edges : ℕ → List ℕ} {s t : Search} {d : Traversal} {v w : ℕ}

/-! ## In step with a plain search -/

/-- The search in state `s` has gone the way of the plain search `d`. -/
structure Shadows (s : Search) (d : Traversal) : Prop where
  found_iff : ∀ v, s.Found v ↔ v ∈ d.discovered
  stack : s.stack.reverse.Sublist d.discovered
  components : ∀ c ∈ s.components, c.reverse.Sublist d.discovered
  /-- The member of each component that was discovered first. -/
  entries : (s.components.filterMap List.getLast?).Sublist d.finished

namespace Shadows

theorem start : Search.start.Shadows .start where
  found_iff := by simp [Search.start, Traversal.start, Found]
  stack := by simp [Search.start]
  components := by simp [Search.start]
  entries := by simp [Search.start]

theorem discover (h : s.Shadows d) (v : ℕ) : (s.discover v).Shadows (d.discover v) where
  found_iff w := by
    have hfound := h.found_iff w
    by_cases hw : w = v
    · simp [Search.discover, Traversal.discover, Found, hw]
    · simpa [Search.discover, Traversal.discover, Found, hw] using hfound
  stack := by simpa [Search.discover, Traversal.discover] using h.stack
  components c hc := (h.components c hc).trans (List.sublist_append_left _ _)
  entries := h.entries

theorem lower (h : s.Shadows d) (v i : ℕ) : (s.lower v i).Shadows d where
  found_iff := h.found_iff
  stack := h.stack
  components := h.components
  entries := h.entries

/-- A position may be finished without an effect on the stack. -/
theorem finish (h : s.Shadows d) (v : ℕ) : s.Shadows (d.finish v) where
  found_iff := h.found_iff
  stack := h.stack
  components := h.components
  entries := h.entries.trans (List.sublist_append_left _ _)

/-- A component is closed as the position is finished that it was entered at. -/
theorem close (h : s.Shadows d) {above rest : List ℕ} (hstack : s.stack = above ++ v :: rest)
    (hv : v ∉ above) : (s.close v).Shadows (d.finish v) := by
  have hsplit : s.stack.reverse = rest.reverse ++ (above ++ [v]).reverse := by simp [hstack]
  have hall := h.stack
  rw [hsplit] at hall
  rw [close_eq hstack hv]
  constructor
  case found_iff => exact h.found_iff
  case stack => exact (List.sublist_append_left _ _).trans hall
  case components =>
    intro c hc
    rcases List.mem_append.1 hc with hc | hc
    · exact h.components c hc
    · rw [List.mem_singleton.1 hc]
      exact (List.sublist_append_right _ _).trans hall
  case entries =>
    simp only [List.filterMap_append, List.filterMap_cons, List.getLast?_append,
      List.getLast?_singleton, Option.some_or, List.filterMap_nil]
    exact h.entries.append_right [v]

/-- Leaving a position finishes it, whether or not its component is complete. -/
theorem leave (h : t.Shadows d) {followed : List ℕ} (hv : Visiting count edges v s t followed) :
    (t.leave v).Shadows (d.finish v) := by
  obtain ⟨above, hstack, -⟩ := hv.stack
  unfold Search.leave
  split_ifs
  · exact h.close hstack (hv.inv.not_mem_above hstack)
  · exact h.finish v

end Shadows

/-! ## Visits -/

/-- `visit` goes the way of a plain search, as long as at most `fuel` positions are not found. -/
def TracedWithin (count : ℕ) (edges : ℕ → List ℕ) (fuel : ℕ)
    (visit : ℕ → Search → Search) : Prop :=
  ∀ v s d, Enterable count edges fuel s v → s.Shadows d →
    ∃ d', Traverses edges [v] d d' ∧ (visit v s).Shadows d'

/-- One edge: the plain search visits its target exactly if the search for components does. -/
theorem Visiting.exists_traverses_follow {followed : List ℕ} {visit : ℕ → Search → Search}
    (h : Visiting count edges v s t followed) (hd : t.Shadows d)
    (htraced : TracedWithin count edges fuel visit) (hv : v < count)
    (hfuel : s.unfound count ≤ fuel + 1) (hw : w ∈ edges v) (hcount : w < count) :
    ∃ d', Traverses edges [w] d d' ∧ (Search.follow visit v t w).Shadows d' := by
  unfold Search.follow
  cases hi : t.index w with
  | none =>
    obtain ⟨d', htraverse, hd'⟩ := htraced w t d (h.enterable hv hfuel hw hcount hi) hd
    exact ⟨d', htraverse, hd'.lower _ _⟩
  | some i =>
    refine ⟨d, .skip ((hd.found_iff w).1 ⟨i, hi⟩) (.nil d), ?_⟩
    by_cases hon : t.onStack w = true
    · simpa [hon] using hd.lower v i
    · simpa [hon] using hd

/-- All edges of a list, one after the other. -/
theorem Visiting.exists_traverses_foldl {followed : List ℕ} {visit : ℕ → Search → Search}
    (h : Visiting count edges v s t followed) (hd : t.Shadows d)
    (hvisit : VisitsWithin count edges fuel visit)
    (htraced : TracedWithin count edges fuel visit) (hv : v < count)
    (hfuel : s.unfound count ≤ fuel + 1) {ws : List ℕ} (hws : ∀ w ∈ ws, w ∈ edges v ∧ w < count) :
    ∃ d', Traverses edges ws d d' ∧ (ws.foldl (Search.follow visit v) t).Shadows d' := by
  induction ws generalizing t d followed with
  | nil => exact ⟨d, .nil d, hd⟩
  | cons w ws ih =>
    obtain ⟨⟨hw, hcount⟩, hws⟩ := List.forall_mem_cons.1 hws
    obtain ⟨d', hfirst, hd'⟩ := h.exists_traverses_follow hd htraced hv hfuel hw hcount
    have hlt := h.extend.unfound_lt h.index_eq_none ⟨_, h.index_self⟩ hv
    obtain ⟨d'', hrest, hd''⟩ := ih (h.follow hvisit (by omega) hw hcount) hd' hws
    exact ⟨d'', hfirst.append hrest, hd''⟩

section Bounded

variable (hedges : ∀ v < count, ∀ w ∈ edges v, w < count)

include hedges

/-- A visit goes the way of a plain search, to any depth. -/
theorem tracedWithin_connect (fuel : ℕ) : TracedWithin count edges fuel (connect edges fuel) := by
  induction fuel with
  | zero =>
    intro v s d h _
    exact absurd h.fuel_pos (Nat.lt_irrefl 0)
  | succ fuel ih =>
    intro v s d h hd
    have hnew : v ∉ d.discovered := by
      rw [← hd.found_iff, Found, h.index_eq_none]
      simp
    have hws : ∀ w ∈ edges v, w ∈ edges v ∧ w < count := fun w hw =>
      ⟨hw, hedges v h.lt_count w hw⟩
    have hvisit := visitsWithin_connect hedges fuel
    obtain ⟨d', hbelow, hd'⟩ := h.visiting.exists_traverses_foldl (hd.discover v) hvisit ih
      h.lt_count h.unfound_le hws
    exact ⟨d'.finish v, .visit hnew hbelow (.nil _),
      hd'.leave (h.visiting.foldl_follow hvisit h.lt_count h.unfound_le hws)⟩

/-- The search goes the way of the plain search through all positions in turn. -/
theorem exists_traverses_connectBelow {n : ℕ} (hn : n ≤ count) :
    ∃ d, Traverses edges (List.range n) .start d ∧ (connectBelow count edges n).Shadows d := by
  induction n with
  | zero => exact ⟨.start, .nil _, .start⟩
  | succ n ih =>
    obtain ⟨d, htraverse, hd⟩ := ih (by omega)
    rw [connectBelow_succ, List.range_succ]
    split_ifs with hnone
    · have henter := enterable_connectBelow hedges hn hnone
      obtain ⟨d', hlast, hd'⟩ := tracedWithin_connect hedges count n _ d henter hd
      exact ⟨d', htraverse.append hlast, hd'⟩
    · obtain ⟨i, hi⟩ := Option.ne_none_iff_exists'.1 hnone
      exact ⟨d, htraverse.append (.skip ((hd.found_iff n).1 ⟨i, hi⟩) (.nil d)), hd⟩

end Bounded

end Search

/-! ## Components in the order of a plain search -/

/-- Components in the order in which the plain search finds and finishes their members. -/
structure DepthFirstOrdered (t : Traversal) (components : List (List ℕ)) : Prop where
  descending : ∀ c ∈ components, c.reverse.Sublist t.discovered
  entries : (components.filterMap List.getLast?).Sublist t.finished

namespace DepthFirstOrdered

variable {t : Traversal} {components : List (List ℕ)} (h : DepthFirstOrdered t components)

include h

/-- A component lists its members from the last discovered to the first. -/
theorem pairwise_discovered (hnodup : t.discovered.Nodup) {c : List ℕ} (hc : c ∈ components) :
    c.Pairwise fun v w => t.discovered.idxOf w < t.discovered.idxOf v :=
  List.pairwise_reverse.1 (pairwise_idxOf_of_sublist hnodup (h.descending c hc))

/-- The last member of a component is the one that was discovered first. -/
theorem exists_first (hnodup : t.discovered.Nodup) {c : List ℕ} (hc : c ∈ components)
    (hne : c ≠ []) :
    ∃ r ∈ c.getLast?, ∀ v ∈ c, t.discovered.idxOf r ≤ t.discovered.idxOf v := by
  have horder := h.pairwise_discovered hnodup hc
  rw [← List.dropLast_append_getLast hne] at horder
  refine ⟨c.getLast hne, List.getLast?_eq_some_getLast hne, fun v hv => ?_⟩
  rw [← List.dropLast_append_getLast hne] at hv
  rcases List.mem_append.1 hv with hv | hv
  · exact ((List.pairwise_append.1 horder).2.2 v hv _ (List.mem_singleton_self _)).le
  · rw [List.mem_singleton.1 hv]

/-- The members discovered first are finished in the order of their components. -/
theorem pairwise_finished (hnodup : t.finished.Nodup) :
    components.Pairwise fun c c' => ∀ r ∈ c.getLast?, ∀ r' ∈ c'.getLast?,
      t.finished.idxOf r < t.finished.idxOf r' :=
  List.pairwise_filterMap.1 (pairwise_idxOf_of_sublist hnodup h.entries)

end DepthFirstOrdered

theorem exists_traverses_strongComponents {count : ℕ} {edges : ℕ → List ℕ}
    (hedges : ∀ v < count, ∀ w ∈ edges v, w < count) :
    ∃ t, Traverses edges (List.range count) .start t ∧
      t.discovered.Perm (List.range count) ∧
      DepthFirstOrdered t (strongComponents count edges) := by
  obtain ⟨t, htraverse, ht⟩ := Search.exists_traverses_connectBelow hedges (Nat.le_refl count)
  obtain ⟨hinv, -, hfound⟩ := Search.invariant_connectBelow hedges (Nat.le_refl count)
  refine ⟨t, htraverse, ?_, ht.components, ht.entries⟩
  refine (List.perm_ext_iff_of_nodup (htraverse.nodup_discovered .nil) List.nodup_range).2 ?_
  intro v
  rw [← ht.found_iff, List.mem_range]
  exact ⟨fun ⟨i, hi⟩ => hinv.lt_count hi, hfound v⟩

universe u

variable {α : Type u} [Dependent α]

theorem exists_traverses_componentPositions (items : List α) :
    ∃ t, Traverses (positionEdges items) (List.range items.length) .start t ∧
      t.discovered.Perm (List.range items.length) ∧
      DepthFirstOrdered t (componentPositions items) :=
  exists_traverses_strongComponents (lt_length_of_mem_positionEdges items)

/-- One plain depth-first search through the positions in turn, along the references to last
definitions, gives the order of the components and of their members: each component goes from the
member discovered last to the one discovered first, and the components stand in the order in which
those first members are finished. -/
theorem dependencySort_depth_first (items : List α) :
    (dependencySort items).map (List.map some) =
        (componentPositions items).map (List.map (items[·]?)) ∧
      ∃ t, Traverses (positionEdges items) (List.range items.length) .start t ∧
        (∀ t', Traverses (positionEdges items) (List.range items.length) .start t' → t' = t) ∧
        t.discovered.Perm (List.range items.length) ∧
        t.finished.Perm (List.range items.length) ∧
        (∀ c ∈ componentPositions items,
          (c.Pairwise fun v w => t.discovered.idxOf w < t.discovered.idxOf v) ∧
          ∃ r ∈ c.getLast?, ∀ v ∈ c, t.discovered.idxOf r ≤ t.discovered.idxOf v) ∧
        (componentPositions items).Pairwise fun c c' => ∀ r ∈ c.getLast?, ∀ r' ∈ c'.getLast?,
          t.finished.idxOf r < t.finished.idxOf r' := by
  obtain ⟨t, htraverse, hdiscovered, horder⟩ := exists_traverses_componentPositions items
  have hfinished := htraverse.perm_finished.trans hdiscovered
  have hnodup := hdiscovered.nodup_iff.2 List.nodup_range
  refine ⟨map_dependencySort items, t, htraverse, fun t' h => h.unique htraverse, hdiscovered,
    hfinished, fun c hc => ⟨horder.pairwise_discovered hnodup hc, ?_⟩,
    horder.pairwise_finished (hfinished.nodup_iff.2 List.nodup_range)⟩
  exact horder.exists_first hnodup hc
    ((layered_componentPositions items).1.ne_nil_of_mem c hc)

/-- Two cycles, of which the one that is discovered last is complete first. -/
theorem dependencySort_depth_first_two_cycles :
    let items : List Definition := [.ofUses "User" ["Tree", "Name"], .ofUses "Name" ["User"],
      .ofUses "Tree" ["Leaf", "INTEGER"], .ofUses "Leaf" ["Tree"]]
    ∃ t, Traverses (positionEdges items) [0, 1, 2, 3] .start t ∧
      t.discovered = [0, 2, 3, 1] ∧ t.finished = [3, 2, 1, 0] ∧
      componentPositions items = [[3, 2], [1, 0]] ∧
      (∀ c ∈ componentPositions items,
        c.Pairwise fun v w => t.discovered.idxOf w < t.discovered.idxOf v) ∧
      t.finished.idxOf 2 < t.finished.idxOf 0 := by
  intro items
  obtain ⟨h0, h1, h2, h3⟩ : positionEdges items 0 = [2, 1] ∧ positionEdges items 1 = [0] ∧
      positionEdges items 2 = [3] ∧ positionEdges items 3 = [2] := by decide
  have hpositions : componentPositions items = [[3, 2], [1, 0]] := by decide
  have leaf : Traverses (positionEdges items) (positionEdges items 3) ⟨[0, 2, 3], []⟩
      ⟨[0, 2, 3], []⟩ := h3 ▸ .skip (by decide) (.nil _)
  have tree : Traverses (positionEdges items) (positionEdges items 2) ⟨[0, 2], []⟩
      ⟨[0, 2, 3], [3]⟩ := h2 ▸ .visit (by decide) leaf (.nil _)
  have name : Traverses (positionEdges items) (positionEdges items 1) ⟨[0, 2, 3, 1], [3, 2]⟩
      ⟨[0, 2, 3, 1], [3, 2]⟩ := h1 ▸ .skip (by decide) (.nil _)
  have user : Traverses (positionEdges items) (positionEdges items 0) ⟨[0], []⟩
      ⟨[0, 2, 3, 1], [3, 2, 1]⟩ := h0 ▸ .visit (by decide) tree (.visit (by decide) name (.nil _))
  have hsearch : Traverses (positionEdges items) [0, 1, 2, 3] .start
      ⟨[0, 2, 3, 1], [3, 2, 1, 0]⟩ :=
    .visit (by decide) user (.skip (by decide) (.skip (by decide) (.skip (by decide) (.nil _))))
  obtain ⟨-, t, htraverse, hunique, -, -, hmembers, horder⟩ := dependencySort_depth_first items
  obtain rfl := hunique _ hsearch
  refine ⟨_, htraverse, rfl, rfl, hpositions, fun c hc => (hmembers c hc).1, ?_⟩
  rw [hpositions] at horder
  exact (List.pairwise_cons.1 horder).1 _ List.mem_cons_self 2 rfl 0 rfl

end AsnModel
