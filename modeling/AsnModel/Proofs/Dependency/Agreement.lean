import AsnModel.Proofs.Dependency.CyclicReferences
import AsnModel.Proofs.Dependency.DependencySort
import Mathlib.Data.List.Nodup

/-!
# The topological order and the components

The topological order takes all definitions of a name together, while the search for components
takes the last definition of a name to stand for it. A component of two or more definitions always
stands for a cycle of names. If no name is defined twice, every cycle of names is found in such a
component.

## Main definitions

* `cyclicComponents` — the components of two or more definitions.
-/

namespace AsnModel

open Relation

universe u

theorem two_le_length {β : Type*} {l : List β} {a b : β} (ha : a ∈ l) (hb : b ∈ l) (hne : a ≠ b) :
    2 ≤ l.length := by
  match l with
  | [] => exact absurd ha List.not_mem_nil
  | [_] => exact absurd ((List.mem_singleton.1 ha).trans (List.mem_singleton.1 hb).symm) hne
  | _ :: _ :: _ => simp

variable {α : Type u} [Dependent α] {items : List α}

/-- The components of two or more definitions. -/
def cyclicComponents (items : List α) : List (List α) :=
  (dependencySort items).filter fun c => 2 ≤ c.length

theorem mem_cyclicComponents_iff (c : List α) :
    c ∈ cyclicComponents items ↔ c ∈ dependencySort items ∧ 2 ≤ c.length := by
  simp [cyclicComponents]

/-! ## Components of definitions -/

theorem perm_flatten_dependencySort (items : List α) :
    (dependencySort items).flatten.Perm items := by
  have hrange : (List.range items.length).map (items[·]?) = items.map some := by
    refine List.ext_getElem (by simp) fun i hi _ => ?_
    rw [List.length_map, List.length_range] at hi
    simp [hi]
  rw [← List.map_perm_map_iff (Option.some_injective α), List.map_flatten, map_dependencySort,
    ← List.map_flatten, ← hrange]
  exact (layered_componentPositions items).2.map _

theorem length_pos_of_mem_dependencySort {c : List α} (hc : c ∈ dependencySort items) :
    0 < c.length := by
  obtain ⟨p, hp, rfl⟩ := List.mem_map.1 hc
  rw [length_filterMap_component hp]
  exact List.length_pos_iff.2 ((layered_componentPositions items).1.ne_nil_of_mem p hp)

/-! ## From positions to names -/

/-- Only the last definition of a name is referred to. -/
theorem RefersTo.eq_of_name_eq {i i' j j' : ℕ} (h : RefersTo items i j) (h' : RefersTo items i' j')
    (hj : j < items.length) (hj' : j' < items.length)
    (hname : Dependent.name items[j] = Dependent.name items[j']) : j = j' := by
  obtain ⟨_, _, _, hlast⟩ := h
  obtain ⟨_, _, _, hlast'⟩ := h'
  by_contra hne
  rcases Nat.lt_or_gt_of_ne hne with hlt | hgt
  · exact hlast j' hj' hlt hname.symm
  · exact hlast' j hj hgt hname

theorem reflTransGen_dependsOn {i j : ℕ} (h : ReflTransGen (RefersTo items) i j)
    (hi : i < items.length) (hj : j < items.length) :
    ReflTransGen (DependsOn items) (Dependent.name items[i]) (Dependent.name items[j]) := by
  induction h with
  | refl => exact .refl
  | @tail k l _ href ih =>
    obtain ⟨hk, _, hmem, -⟩ := href
    by_cases hname : Dependent.name items[l] = Dependent.name items[k]
    · rw [hname]
      exact ih hk
    · exact (ih hk).tail ⟨⟨items[k], List.getElem_mem hk, rfl, hmem⟩,
        List.mem_map_of_mem (List.getElem_mem hj), hname⟩

/-- Two definitions that lead to each other stand for names on a cycle. -/
theorem onCycle_of_reflTransGen {i j : ℕ} (hi : i < items.length) (hj : j < items.length)
    (hne : i ≠ j) (hij : ReflTransGen (RefersTo items) i j)
    (hji : ReflTransGen (RefersTo items) j i) :
    OnCycle (DependsOn items) (Dependent.name items[i]) := by
  -- Both are referred to, so each of them is the last definition of its name.
  rcases hij.cases_tail with heq | ⟨k, -, hkj⟩
  · exact absurd heq.symm hne
  rcases hji.cases_tail with heq | ⟨l, -, hli⟩
  · exact absurd heq hne
  have hname : Dependent.name items[j] ≠ Dependent.name items[i] := fun heq =>
    hne (hli.eq_of_name_eq hkj hi hj heq.symm)
  have hforth := (reflTransGen_iff_eq_or_transGen.1 (reflTransGen_dependsOn hij hi hj)).resolve_left
    hname
  exact hforth.trans_left (reflTransGen_dependsOn hji hj hi)

/-- The names of a component lead to each other. -/
theorem reflTransGen_of_mem_dependencySort {c : List α} (hc : c ∈ dependencySort items) {d e : α}
    (hd : d ∈ c) (he : e ∈ c) :
    ReflTransGen (DependsOn items) (Dependent.name d) (Dependent.name e) := by
  obtain ⟨p, hp, rfl⟩ := List.mem_map.1 hc
  obtain ⟨i, hip, hi, rfl⟩ := mem_filterMap_getElem?_iff.1 hd
  obtain ⟨j, hjp, hj, rfl⟩ := mem_filterMap_getElem?_iff.1 he
  exact reflTransGen_dependsOn ((exists_component_iff items hi hj).1 ⟨p, hp, hip, hjp⟩).1 hi hj

theorem onCycle_of_mem_cyclicComponents {c : List α} (hc : c ∈ cyclicComponents items) {d : α}
    (hd : d ∈ c) : OnCycle (DependsOn items) (Dependent.name d) := by
  obtain ⟨hc, hlen⟩ := (mem_cyclicComponents_iff c).1 hc
  obtain ⟨p, hp, rfl⟩ := List.mem_map.1 hc
  rw [length_filterMap_component hp] at hlen
  obtain ⟨i, hip, hi, rfl⟩ := mem_filterMap_getElem?_iff.1 hd
  have hnodup : p.Nodup := (List.nodup_flatten.1 (nodup_componentPositions items)).1 p hp
  have hother : p ≠ [i] := by
    rintro rfl
    simp at hlen
  obtain rfl | ⟨j, hjp, hne⟩ := (hnodup.ne_singleton_iff i).1 hother
  · exact absurd hip List.not_mem_nil
  have hj := lt_length_of_mem_component hp hjp
  obtain ⟨hij, hji⟩ := (exists_component_iff items hi hj).1 ⟨p, hp, hip, hjp⟩
  exact onCycle_of_reflTransGen hi hj hne.symm hij hji

/-- A component without a cycle of names is a single definition. -/
theorem length_eq_one_of_forall_not_onCycle (h : ∀ n, ¬ OnCycle (DependsOn items) n) :
    ∀ c ∈ dependencySort items, c.length = 1 := by
  intro c hc
  have hpos := length_pos_of_mem_dependencySort hc
  by_contra hne
  have hcyclic := (mem_cyclicComponents_iff c).2 ⟨hc, by omega⟩
  exact h _ (onCycle_of_mem_cyclicComponents hcyclic (List.getElem_mem hpos))

/-! ## Distinct names -/

section Distinct

variable (hnames : (items.map Dependent.name).Nodup)
include hnames

theorem eq_of_name_eq {i j : ℕ} (hi : i < items.length) (hj : j < items.length)
    (h : Dependent.name items[i] = Dependent.name items[j]) : i = j := by
  have hpair := List.pairwise_iff_getElem.1 (List.pairwise_map.1 hnames)
  by_contra hne
  rcases Nat.lt_or_gt_of_ne hne with hlt | hgt
  · exact hpair i j hi hj hlt h
  · exact hpair j i hj hi hgt h.symm

theorem refersTo_of_dependsOn {i j : ℕ} (hi : i < items.length) (hj : j < items.length)
    (h : DependsOn items (Dependent.name items[i]) (Dependent.name items[j])) :
    RefersTo items i j := by
  obtain ⟨⟨d, hd, hname, href⟩, -⟩ := h
  obtain ⟨k, hk, rfl⟩ := List.getElem_of_mem hd
  obtain rfl := eq_of_name_eq hnames hk hi hname
  refine ⟨hi, hj, href, fun l hl hlt hlast => ?_⟩
  exact absurd (eq_of_name_eq hnames hl hj hlast) (Nat.ne_of_gt hlt)

theorem reflTransGen_refersTo {a b : String} (h : ReflTransGen (DependsOn items) a b) :
    ∀ (i j : ℕ) (hi : i < items.length) (hj : j < items.length), Dependent.name items[i] = a →
      Dependent.name items[j] = b → ReflTransGen (RefersTo items) i j := by
  induction h with
  | refl =>
    intro i j hi hj hia hjb
    rw [eq_of_name_eq hnames hi hj (hia.trans hjb.symm)]
  | tail _ hdep ih =>
    intro i j hi hj hia hjb
    obtain ⟨⟨d, hd, hname, -⟩, -⟩ := id hdep
    obtain ⟨k, hk, rfl⟩ := List.getElem_of_mem hd
    refine (ih i k hi hk hia hname).tail (refersTo_of_dependsOn hnames hk hj ?_)
    rwa [hname, hjb]

/-- Names that all lead to each other are found in one component. -/
theorem exists_component_of_reflTransGen {names : List String}
    (hdefined : ∃ d ∈ items, Dependent.name d ∈ names)
    (h : ∀ a ∈ names, ∀ b ∈ names, ReflTransGen (DependsOn items) a b) :
    ∃ c ∈ dependencySort items, ∀ d ∈ items, Dependent.name d ∈ names → d ∈ c := by
  obtain ⟨d, hd, hname⟩ := hdefined
  obtain ⟨i, hi, rfl⟩ := List.getElem_of_mem hd
  obtain ⟨p, hp, hip⟩ := List.mem_flatten.1 ((mem_componentPositions_iff items i).2 hi)
  refine ⟨_, List.mem_map_of_mem hp, fun e he hname' => ?_⟩
  obtain ⟨j, hj, rfl⟩ := List.getElem_of_mem he
  have hij := reflTransGen_refersTo hnames (h _ hname _ hname') i j hi hj rfl rfl
  have hji := reflTransGen_refersTo hnames (h _ hname' _ hname) j i hj hi rfl rfl
  -- The component of `i` and `j` is that of `i`, since no position is in two components.
  obtain ⟨q, hq, hiq, hjq⟩ := (exists_component_iff items hi hj).2 ⟨hij, hji⟩
  obtain ⟨k, hk, rfl⟩ := List.getElem_of_mem hp
  obtain ⟨l, hl, rfl⟩ := List.getElem_of_mem hq
  obtain rfl := Layered.eq_of_mem_of_mem (nodup_componentPositions items) hk hl hip hiq
  exact mem_filterMap_getElem?_iff.2 ⟨j, hjq, hj, rfl⟩

/-- Every cycle of names is found in a component. -/
theorem exists_cyclicComponent_of_onCycle {n : String} (h : OnCycle (DependsOn items) n) :
    ∃ c ∈ cyclicComponents items, ∃ d ∈ c, Dependent.name d = n := by
  obtain ⟨m, hnm, hmn⟩ := TransGen.head'_iff.1 h
  obtain ⟨⟨d, hd, rfl, -⟩, hm, hne⟩ := id hnm
  obtain ⟨e, he, rfl⟩ := List.mem_map.1 hm
  obtain ⟨i, hi, rfl⟩ := List.getElem_of_mem hd
  obtain ⟨j, hj, rfl⟩ := List.getElem_of_mem he
  have hij := reflTransGen_refersTo hnames (.single hnm) i j hi hj rfl rfl
  have hji := reflTransGen_refersTo hnames hmn j i hj hi rfl rfl
  obtain ⟨p, hp, hip, hjp⟩ := (exists_component_iff items hi hj).2 ⟨hij, hji⟩
  have hlen : 2 ≤ p.length := two_le_length hip hjp fun heq => hne (by simp only [heq])
  rw [← length_filterMap_component hp] at hlen
  exact ⟨_, (mem_cyclicComponents_iff _).2 ⟨List.mem_map_of_mem hp, hlen⟩, _,
    mem_filterMap_getElem?_iff.2 ⟨i, hip, hi, rfl⟩, rfl⟩

theorem forall_not_onCycle_iff :
    (∀ n, ¬ OnCycle (DependsOn items) n) ↔ ∀ c ∈ dependencySort items, c.length = 1 := by
  refine ⟨length_eq_one_of_forall_not_onCycle, fun h n hn => ?_⟩
  obtain ⟨c, hc, -⟩ := exists_cyclicComponent_of_onCycle hnames hn
  obtain ⟨hc, hlen⟩ := (mem_cyclicComponents_iff c).1 hc
  have hone := h c hc
  omega

/-- A definition never refers to a later component. -/
theorem not_mem_references_of_lt {k l : ℕ} (hkl : k < l)
    (hl : l < (dependencySort items).length) {d e : α}
    (hd : d ∈ (dependencySort items)[k]) (he : e ∈ (dependencySort items)[l]) :
    Dependent.name e ∉ Dependent.references d := by
  intro href
  simp only [dependencySort, List.getElem_map, List.length_map] at hd he hl
  obtain ⟨i, hik, hi, rfl⟩ := mem_filterMap_getElem?_iff.1 hd
  obtain ⟨j, hjl, hj, rfl⟩ := mem_filterMap_getElem?_iff.1 he
  have hedge : RefersTo items i j := ⟨hi, hj, href, fun m hm hlt hlast =>
    Nat.ne_of_gt hlt (eq_of_name_eq hnames hm hj hlast)⟩
  exact Nat.not_le_of_lt hkl
    (component_le_of_refersTo items (hkl.trans hl) hl hik hjl hedge)

theorem referencesFirst_flatten_dependencySort (h : ∀ c ∈ dependencySort items, c.length = 1) :
    ReferencesFirst (dependencySort items).flatten := by
  refine referencesFirst_of_pairwise (List.pairwise_flatten.2 ⟨fun c hc => ?_, ?_⟩)
  · obtain ⟨d, rfl⟩ := List.length_eq_one_iff.1 (h c hc)
    exact List.pairwise_singleton _ _
  · refine List.pairwise_iff_getElem.2 fun k l _ hl hkl d hd e he href => ?_
    exact absurd href (not_mem_references_of_lt hnames hkl hl hd he)

/-- A name between cycles that is on none of them lies on a path between two components. -/
theorem exists_path_of_betweenCycles {n : String} (h : BetweenCycles items n)
    (hn : ¬ OnCycle (DependsOn items) n) :
    ∃ c₁ ∈ cyclicComponents items, ∃ c₂ ∈ cyclicComponents items, c₁ ≠ c₂ ∧
      ∃ d₁ ∈ c₁, ∃ d₂ ∈ c₂, ReflTransGen (DependsOn items) (Dependent.name d₁) n ∧
        ReflTransGen (DependsOn items) n (Dependent.name d₂) := by
  obtain ⟨n₁, n₂, hn₁, hn₂, hpath₁, hpath₂⟩ := h
  obtain ⟨c₁, hc₁, d₁, hd₁, rfl⟩ := exists_cyclicComponent_of_onCycle hnames hn₁
  obtain ⟨c₂, hc₂, d₂, hd₂, rfl⟩ := exists_cyclicComponent_of_onCycle hnames hn₂
  refine ⟨c₁, hc₁, c₂, hc₂, ?_, d₁, hd₁, d₂, hd₂, hpath₁, hpath₂⟩
  -- A path that returned to the same component would close a cycle through the name.
  rintro rfl
  have hback := reflTransGen_of_mem_dependencySort ((mem_cyclicComponents_iff _).1 hc₁).1 hd₂ hd₁
  exact hn (TransGen.trans_right hpath₂ (TransGen.trans_right hback (hn₁.trans_left hpath₁)))

end Distinct

/-! ## Agreement -/

/-- If there is a topological order, every component is a single definition, and if there is none,
every name of a larger component is reported. If no name is defined twice, single definitions as
components give a topological order, and any other name that is reported lies on a path from one of
the larger components to another one. -/
theorem topologicalSort_agrees_dependencySort (items : List α) :
    (∀ sorted, topologicalSort items = .ok sorted → ∀ c ∈ dependencySort items, c.length = 1) ∧
    (∀ e, topologicalSort items = .error e →
      ∀ c ∈ cyclicComponents items, ∀ d ∈ c, Dependent.name d ∈ e.names) ∧
    ((items.map Dependent.name).Nodup →
      ((∃ sorted, topologicalSort items = .ok sorted) ↔
        ∀ c ∈ dependencySort items, c.length = 1) ∧
      (∀ sorted, topologicalSort items = .ok sorted →
        (dependencySort items).flatten.Perm items ∧
          ReferencesFirst (dependencySort items).flatten) ∧
      ∀ e, topologicalSort items = .error e → ∀ n ∈ e.names,
        (∀ c ∈ cyclicComponents items, ∀ d ∈ c, Dependent.name d ≠ n) →
          ∃ c₁ ∈ cyclicComponents items, ∃ c₂ ∈ cyclicComponents items, c₁ ≠ c₂ ∧
            ∃ d₁ ∈ c₁, ∃ d₂ ∈ c₂, ReflTransGen (DependsOn items) (Dependent.name d₁) n ∧
              ReflTransGen (DependsOn items) n (Dependent.name d₂)) := by
  have hsingle : ∀ sorted, topologicalSort items = .ok sorted →
      ∀ c ∈ dependencySort items, c.length = 1 := fun sorted h =>
    length_eq_one_of_forall_not_onCycle ((exists_topologicalSort_eq_ok_iff items).1 ⟨sorted, h⟩)
  refine ⟨hsingle, ?_, fun hnames => ⟨?_, fun sorted h => ?_, ?_⟩⟩
  · intro e he c hc d hd
    have hcycle := onCycle_of_mem_cyclicComponents hc hd
    exact (mem_names_of_topologicalSort he _).2 (betweenCycles_of_onCycle hcycle)
  · rw [exists_topologicalSort_eq_ok_iff]
    exact forall_not_onCycle_iff hnames
  · exact ⟨perm_flatten_dependencySort items,
      referencesFirst_flatten_dependencySort hnames (hsingle sorted h)⟩
  · intro e he n hn hother
    refine exists_path_of_betweenCycles hnames ((mem_names_of_topologicalSort he n).1 hn) ?_
    intro hcycle
    obtain ⟨c, hc, d, hd, hname⟩ := exists_cyclicComponent_of_onCycle hnames hcycle
    exact hother c hc d hd hname

/-- A list with an order, and one in which a name lies on the path between two cycles. -/
theorem topologicalSort_agrees_dependencySort_two_cycles :
    let ordered : List Definition := [.ofUses "User" ["Tree", "Leaf"],
      .ofUses "Tree" ["Tree", "Leaf"], .ofUses "Leaf" ["INTEGER"]]
    let items : List Definition := [.ofUses "Part" ["Page"], .ofUses "Page" ["Part"],
      .ofUses "Body" ["Link"], .ofUses "Link" ["Body", "Join"], .ofUses "Join" ["Page"]]
    let names := ["Part", "Page", "Body", "Link", "Join"]
    ((∀ c ∈ dependencySort ordered, c.length = 1) ∧
      ReferencesFirst (dependencySort ordered).flatten) ∧
    topologicalSort items = .error ⟨names⟩ ∧
    (∀ c ∈ cyclicComponents items, ∀ d ∈ c, Dependent.name d ∈ names) ∧
    ∃ c₁ ∈ cyclicComponents items, ∃ c₂ ∈ cyclicComponents items, c₁ ≠ c₂ ∧
      ∃ d₁ ∈ c₁, ∃ d₂ ∈ c₂, ReflTransGen (DependsOn items) (Dependent.name d₁) "Join" ∧
        ReflTransGen (DependsOn items) "Join" (Dependent.name d₂) := by
  intro ordered items names
  have hordered : topologicalSort ordered = .ok ordered.reverse := by
    rw [topologicalSort_eq]
    cbv
  have hitems : topologicalSort items = .error ⟨names⟩ := by cbv
  obtain ⟨hsingle, -, horder⟩ := topologicalSort_agrees_dependencySort ordered
  obtain ⟨-, hmember, hpath⟩ := topologicalSort_agrees_dependencySort items
  exact ⟨⟨hsingle _ hordered, ((horder (by decide)).2.1 _ hordered).2⟩, hitems, hmember _ hitems,
    (hpath (by decide)).2.2 _ hitems "Join" (by decide) (by decide)⟩

/-- A cycle through a definition that is not the last of its name is in no component. -/
example :
    let items : List Definition := [.ofUses "Tree" ["User"], .ofUses "User" ["Tree"],
      .ofUses "Tree" []]
    cyclicComponents items = [] ∧ topologicalSort items = .error ⟨["Tree", "User"]⟩ :=
  ⟨by decide, by cbv⟩

end AsnModel
