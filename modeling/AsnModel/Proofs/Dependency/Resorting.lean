import AsnModel.Proofs.Dependency.Agreement
import AsnModel.Proofs.Dependency.DiscoveryOrder
import Mathlib.Data.List.Forall2

/-!
# Sorting the components again

When the definitions are listed component by component and sorted again, references still never
lead to a later component of the first sort. A depth-first search through the list then finishes the
components one after the other, so that they are found again in the same order. Only the order of
the members of a component may change, as the search enters it at another member.

## Main definitions

* `RankedBy` — groups of equal rank, in the order of rank.
* `componentRank` — the place of the component that a definition is in.
-/

namespace AsnModel

open Relation

universe u

/-! ## Groups in the order of rank -/

/-- No group is empty, members of a group have the same rank, and ranks increase from group to
group. -/
structure RankedBy {β : Type u} (rank : β → ℕ) (groups : List (List β)) : Prop where
  ne_nil : ∀ c ∈ groups, c ≠ []
  rank_eq : ∀ c ∈ groups, ∀ a ∈ c, ∀ b ∈ c, rank a = rank b
  rank_lt : groups.Pairwise fun c c' => ∀ a ∈ c, ∀ b ∈ c', rank a < rank b

namespace RankedBy

variable {β : Type u} {rank : β → ℕ} {c c' : List β} {cs cs' : List (List β)} {a : β}

theorem tail (h : RankedBy rank (c :: cs)) : RankedBy rank cs where
  ne_nil := (List.forall_mem_cons.1 h.ne_nil).2
  rank_eq := (List.forall_mem_cons.1 h.rank_eq).2
  rank_lt := (List.pairwise_cons.1 h.rank_lt).2

theorem rank_lt_of_mem_flatten (h : RankedBy rank (c :: cs)) (ha : a ∈ c) {b : β}
    (hb : b ∈ cs.flatten) : rank a < rank b := by
  obtain ⟨c', hc', hb⟩ := List.mem_flatten.1 hb
  exact (List.pairwise_cons.1 h.rank_lt).1 c' hc' a ha b hb

/-- The first group has the lowest rank. -/
theorem rank_le_of_mem_flatten (h : RankedBy rank (c :: cs)) (ha : a ∈ c) {b : β}
    (hb : b ∈ (c :: cs).flatten) : rank a ≤ rank b := by
  rcases List.mem_append.1 (List.flatten_cons ▸ hb) with hb | hb
  · exact (h.rank_eq c List.mem_cons_self a ha b hb).le
  · exact (h.rank_lt_of_mem_flatten ha hb).le

/-- The first group has everything of its rank. -/
theorem filter_flatten (h : RankedBy rank (c :: cs)) (ha : a ∈ c) :
    (c :: cs).flatten.filter (fun b => rank b = rank a) = c := by
  have hfirst : c.filter (fun b => rank b = rank a) = c := by
    simpa [List.filter_eq_self] using fun b hb => h.rank_eq c List.mem_cons_self b hb a ha
  have hothers : cs.flatten.filter (fun b => rank b = rank a) = [] := by
    rw [List.filter_eq_nil_iff]
    intro b hb
    simpa using (h.rank_lt_of_mem_flatten ha hb).ne'
  rw [List.flatten_cons, List.filter_append, hfirst, hothers, List.append_nil]

/-- Ranks and members determine the groups, up to the order inside a group. -/
theorem forall₂_perm (h : RankedBy rank cs) (h' : RankedBy rank cs')
    (hperm : cs.flatten.Perm cs'.flatten) : List.Forall₂ List.Perm cs cs' := by
  induction cs generalizing cs' with
  | nil =>
    have hnil := List.flatten_eq_nil_iff.1 hperm.symm.eq_nil
    rw [List.eq_nil_iff_forall_not_mem.2 fun c hc => h'.ne_nil c hc (hnil c hc)]
    exact .nil
  | cons c cs ih =>
    obtain ⟨a, ha⟩ := List.exists_mem_of_ne_nil c (h.ne_nil c List.mem_cons_self)
    cases cs' with
    | nil =>
      have hmem : a ∈ (c :: cs).flatten := by simp [ha]
      exact absurd (hperm.mem_iff.1 hmem) List.not_mem_nil
    | cons c' cs' =>
      obtain ⟨a', ha'⟩ := List.exists_mem_of_ne_nil c' (h'.ne_nil c' List.mem_cons_self)
      have hrank : rank a = rank a' := Nat.le_antisymm
        (h.rank_le_of_mem_flatten ha (hperm.mem_iff.2 (by simp [ha'])))
        (h'.rank_le_of_mem_flatten ha' (hperm.mem_iff.1 (by simp [ha])))
      have hfirst : c.Perm c' := by
        have hkept := hperm.filter fun b => decide (rank b = rank a)
        rwa [h.filter_flatten ha, hrank, h'.filter_flatten ha'] at hkept
      refine .cons hfirst (ih h.tail h'.tail ?_)
      rw [List.flatten_cons, List.flatten_cons] at hperm
      exact (List.perm_append_left_iff c).1 (hperm.trans (hfirst.symm.append_right _))

/-- A list of groups goes on in the order of rank. -/
theorem pairwise_flatten (h : RankedBy rank cs) :
    cs.flatten.Pairwise fun a b => rank a ≤ rank b := by
  refine List.pairwise_flatten.2 ⟨fun c hc => ?_, h.rank_lt.imp fun hlt a ha b hb => ?_⟩
  · exact List.pairwise_of_forall_mem_list fun a ha b hb => (h.rank_eq c hc a ha b hb).le
  · exact (hlt a ha b hb).le

/-- Groups of positions in a list stand for groups of its members. -/
theorem filterMap_getElem? {l : List β} {positionRank : ℕ → ℕ} {ps : List (List ℕ)}
    (h : RankedBy positionRank ps) (hlt : ∀ p ∈ ps, ∀ i ∈ p, i < l.length)
    (hrank : ∀ (i : ℕ) (hi : i < l.length), positionRank i = rank l[i]) :
    RankedBy rank (ps.map fun p => p.filterMap (l[·]?)) where
  ne_nil := by
    refine List.forall_mem_map.2 fun p hp => ?_
    obtain ⟨i, hi⟩ := List.exists_mem_of_ne_nil p (h.ne_nil p hp)
    exact List.ne_nil_of_mem (mem_filterMap_getElem?_iff.2 ⟨i, hi, hlt p hp i hi, rfl⟩)
  rank_eq := by
    refine List.forall_mem_map.2 fun p hp a ha b hb => ?_
    obtain ⟨i, hip, hi, rfl⟩ := mem_filterMap_getElem?_iff.1 ha
    obtain ⟨j, hjp, hj, rfl⟩ := mem_filterMap_getElem?_iff.1 hb
    rw [← hrank i hi, ← hrank j hj]
    exact h.rank_eq p hp i hip j hjp
  rank_lt := by
    refine List.pairwise_map.2 (h.rank_lt.imp fun hless a ha b hb => ?_)
    obtain ⟨i, hip, hi, rfl⟩ := mem_filterMap_getElem?_iff.1 ha
    obtain ⟨j, hjp, hj, rfl⟩ := mem_filterMap_getElem?_iff.1 hb
    rw [← hrank i hi, ← hrank j hj]
    exact hless i hip j hjp

end RankedBy

/-- Groups of one member each do not change when their members are rearranged. -/
theorem eq_of_forall₂_perm {β : Type u} {cs cs' : List (List β)}
    (h : List.Forall₂ List.Perm cs cs') (hsingle : ∀ c ∈ cs', c.length = 1) : cs = cs' := by
  induction h with
  | nil => rfl
  | @cons c c' cs cs' hperm _ ih =>
    obtain ⟨hone, hrest⟩ := List.forall_mem_cons.1 hsingle
    obtain ⟨a, rfl⟩ := List.length_eq_one_iff.1 hone
    rw [List.perm_singleton.1 hperm, ih hrest]

/-- What is in one of several lists without common members is found there. -/
theorem findIdx_mem_eq {β : Type u} [DecidableEq β] {ls : List (List β)}
    (hnodup : ls.flatten.Nodup) {k : ℕ} (hk : k < ls.length) {a : β} (ha : a ∈ ls[k]) :
    ls.findIdx (fun l => a ∈ l) = k := by
  refine (List.findIdx_eq hk).2 ⟨by simpa using ha, fun j hj => ?_⟩
  have hdisjoint := List.pairwise_iff_getElem.1 (List.nodup_flatten.1 hnodup).2 j k (by omega) hk hj
  simpa using fun hmem => hdisjoint hmem ha

/-! ## Components in the order of the first sort -/

variable {α : Type u} [Dependent α] {items : List α}

/-- The dependencies between names do not depend on the order of the definitions. -/
theorem dependsOn_eq_of_perm {l l' : List α} (h : l.Perm l') : DependsOn l = DependsOn l' := by
  funext a b
  simp only [DependsOn, h.mem_iff, (h.map Dependent.name).mem_iff]

/-- The place of the component that has a definition of the name of `d`. -/
def componentRank (items : List α) (d : α) : ℕ :=
  ((dependencySort items).map (List.map Dependent.name)).findIdx fun names =>
    Dependent.name d ∈ names

/-- The definitions, listed component by component. -/
def relisted (items : List α) : List α := (dependencySort items).flatten

/-- The rank of the definition at a position of the list by components. -/
def relistedRank (items : List α) (i : ℕ) : ℕ :=
  ((relisted items)[i]?.map (componentRank items)).getD 0

theorem perm_relisted (items : List α) : (relisted items).Perm items :=
  perm_flatten_dependencySort items

theorem relistedRank_eq (items : List α) {i : ℕ} (hi : i < (relisted items).length) :
    relistedRank items i = componentRank items (relisted items)[i] := by
  simp [relistedRank, hi]

section Distinct

variable (hnames : (items.map Dependent.name).Nodup)
include hnames

theorem nodup_names_relisted : ((relisted items).map Dependent.name).Nodup :=
  ((perm_relisted items).map Dependent.name).nodup_iff.2 hnames

theorem componentRank_eq {k : ℕ} (hk : k < (dependencySort items).length) {d : α}
    (hd : d ∈ (dependencySort items)[k]) : componentRank items d = k := by
  have hdisjoint : ((dependencySort items).map (List.map Dependent.name)).flatten.Nodup := by
    rw [← List.map_flatten]
    exact nodup_names_relisted hnames
  refine findIdx_mem_eq hdisjoint (by simpa using hk) ?_
  rw [List.getElem_map]
  exact List.mem_map_of_mem hd

/-- Each member of the list is found in the component of its rank. -/
theorem exists_mem_component {i : ℕ} (hi : i < (relisted items).length) :
    ∃ hk : relistedRank items i < (dependencySort items).length,
      (relisted items)[i] ∈ (dependencySort items)[relistedRank items i] := by
  obtain ⟨c, hc, hmem⟩ := List.mem_flatten.1 (List.getElem_mem hi)
  obtain ⟨k, hk, rfl⟩ := List.getElem_of_mem hc
  have hrank : relistedRank items i = k :=
    (relistedRank_eq items hi).trans (componentRank_eq hnames hk hmem)
  exact ⟨hrank ▸ hk, by simpa only [hrank] using hmem⟩

theorem rankedBy_componentRank : RankedBy (componentRank items) (dependencySort items) where
  ne_nil _ hc := List.ne_nil_of_length_pos (length_pos_of_mem_dependencySort hc)
  rank_eq c hc d hd e he := by
    obtain ⟨k, hk, rfl⟩ := List.getElem_of_mem hc
    rw [componentRank_eq hnames hk hd, componentRank_eq hnames hk he]
  rank_lt := by
    refine List.pairwise_iff_getElem.2 fun k l hk hl hkl d hd e he => ?_
    rwa [componentRank_eq hnames hk hd, componentRank_eq hnames hl he]

/-! ## The search through the list by components -/

/-- References of the list do not lead to a higher rank. -/
theorem relistedRank_le_of_refersTo {i j : ℕ} (h : RefersTo (relisted items) i j) :
    relistedRank items j ≤ relistedRank items i := by
  obtain ⟨hi, hj, href, -⟩ := h
  obtain ⟨_, hd⟩ := exists_mem_component hnames hi
  obtain ⟨hl, he⟩ := exists_mem_component hnames hj
  by_contra hlt
  exact not_mem_references_of_lt hnames (Nat.lt_of_not_le hlt) hl hd he href

theorem relistedRank_le_of_reaches {i j : ℕ}
    (h : Reaches (positionEdges (relisted items)) i j) :
    relistedRank items j ≤ relistedRank items i := by
  rw [reaches_positionEdges_iff] at h
  induction h with
  | refl => exact Nat.le_refl _
  | tail _ href ih => exact (relistedRank_le_of_refersTo hnames href).trans ih

/-- Members of the list that were in one component lead to each other. -/
theorem reaches_of_relistedRank_eq {i j : ℕ} (hi : i < (relisted items).length)
    (hj : j < (relisted items).length) (h : relistedRank items i = relistedRank items j) :
    Reaches (positionEdges (relisted items)) i j := by
  obtain ⟨hk, hd⟩ := exists_mem_component hnames hi
  obtain ⟨_, he⟩ := exists_mem_component hnames hj
  simp only [← h] at he
  have hpath := reflTransGen_of_mem_dependencySort (List.getElem_mem hk) hd he
  rw [← dependsOn_eq_of_perm (perm_relisted items)] at hpath
  exact (reaches_positionEdges_iff _ _ _).2
    (reflTransGen_refersTo (nodup_names_relisted hnames) hpath i j hi hj rfl rfl)

/-- The members that a search through the list discovers first stand in the order of rank. -/
theorem pairwise_relistedRank_entries :
    (componentPositions (relisted items)).Pairwise fun c c' =>
      ∀ i ∈ c.getLast?, ∀ j ∈ c'.getLast?, relistedRank items i ≤ relistedRank items j := by
  obtain ⟨t, htraverse, hdiscovered, horder⟩ :=
    exists_traverses_componentPositions (relisted items)
  refine List.pairwise_filterMap.1 (List.Pairwise.sublist horder.entries ?_)
  refine htraverse.pairwise_rank_finished (fun _ _ => relistedRank_le_of_reaches hnames)
    (fun x hx => .inr (hdiscovered.mem_iff.1 hx)) ?_
  refine List.pairwise_iff_getElem.2 fun i j hi hj hij => ?_
  simp only [Traversal.start, List.nil_append, List.length_range, List.getElem_range] at hi hj ⊢
  rw [relistedRank_eq items hi, relistedRank_eq items hj]
  exact List.pairwise_iff_getElem.1 (rankedBy_componentRank hnames).pairwise_flatten i j hi hj hij

theorem relistedRank_eq_of_mem {c : List ℕ} (hc : c ∈ componentPositions (relisted items)) {i j : ℕ}
    (hi : i ∈ c) (hj : j ∈ c) : relistedRank items i = relistedRank items j := by
  have hreaches := (layered_componentPositions (relisted items)).1.reaches_of_mem c hc
  exact Nat.le_antisymm (relistedRank_le_of_reaches hnames (hreaches j hj i hi))
    (relistedRank_le_of_reaches hnames (hreaches i hi j hj))

/-- The search through the list finds the components in the order of rank. -/
theorem rankedBy_relistedRank :
    RankedBy (relistedRank items) (componentPositions (relisted items)) where
  ne_nil := (layered_componentPositions (relisted items)).1.ne_nil_of_mem
  rank_eq c hc i hi j hj := relistedRank_eq_of_mem hnames hc hi hj
  rank_lt := by
    refine List.pairwise_iff_getElem.2 fun k l hk hl hkl i hi j hj => ?_
    have hlayered := (layered_componentPositions (relisted items)).1
    have hkmem := List.getElem_mem hk
    have hlmem := List.getElem_mem hl
    -- The ranks of the components are those of the members that were discovered first.
    have hle : relistedRank items i ≤ relistedRank items j := by
      have hik := List.getLast_mem (hlayered.ne_nil_of_mem _ hkmem)
      have hjl := List.getLast_mem (hlayered.ne_nil_of_mem _ hlmem)
      rw [relistedRank_eq_of_mem hnames hkmem hi hik, relistedRank_eq_of_mem hnames hlmem hj hjl]
      exact List.pairwise_iff_getElem.1 (pairwise_relistedRank_entries hnames) k l hk hl hkl _
        (List.getLast?_eq_some_getLast _) _ (List.getLast?_eq_some_getLast _)
    refine hle.lt_of_ne fun heq => hkl.ne ?_
    have hilt := lt_length_of_mem_component hkmem hi
    have hjlt := lt_length_of_mem_component hlmem hj
    exact hlayered.eq_of_reaches_of_reaches (nodup_componentPositions _) hk hl hi hj
      (reaches_of_relistedRank_eq hnames hilt hjlt heq)
      (reaches_of_relistedRank_eq hnames hjlt hilt heq.symm)

/-- So the components of the list are those of the first sort, in the same order. -/
theorem rankedBy_dependencySort_relisted :
    RankedBy (componentRank items) (dependencySort (relisted items)) :=
  (rankedBy_relistedRank hnames).filterMap_getElem?
    (fun _ hp _ hi => lt_length_of_mem_component hp hi) fun _ hi => relistedRank_eq items hi

/-- Sorting the members of the components again gives as many components, and each has the members
that it had. Components of one member each are not changed at all. -/
theorem dependencySort_flatten_dependencySort :
    List.Forall₂ List.Perm (dependencySort (dependencySort items).flatten) (dependencySort items) ∧
      ((∀ c ∈ dependencySort items, c.length = 1) →
        dependencySort (dependencySort items).flatten = dependencySort items) := by
  have hcomponents :=
    (rankedBy_dependencySort_relisted hnames).forall₂_perm (rankedBy_componentRank hnames)
      (perm_flatten_dependencySort (relisted items))
  exact ⟨hcomponents, eq_of_forall₂_perm hcomponents⟩

end Distinct

/-- The search enters the cycle at its other member when it goes through the list of the components,
and finds the members in the other order. -/
theorem dependencySort_flatten_dependencySort_cycle :
    let items : List Definition := [.ofUses "User" ["Tree"], .ofUses "Tree" ["User", "Leaf"],
      .ofUses "Leaf" ["INTEGER"]]
    (items.map Dependent.name).Nodup ∧
      List.Forall₂ List.Perm (dependencySort (dependencySort items).flatten)
        (dependencySort items) ∧
      dependencySort (dependencySort items).flatten ≠ dependencySort items := by
  intro items
  have hnames : (items.map Dependent.name).Nodup := by decide
  exact ⟨hnames, (dependencySort_flatten_dependencySort hnames).1, by decide⟩

end AsnModel
