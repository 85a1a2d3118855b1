import AsnModel.Dependency.Topological
import AsnModel.Proofs.Dependency.Cycle
import AsnModel.Proofs.Dependency.Graph
import Mathlib.Data.List.Nodup

/-!
# The removal of names from a graph

While names are removed from a proper graph, the degree of each name that is left is the number of
names left that refer to it, the roots are the names left with degree zero, and nothing left refers
to a name that is gone. In the end every name left is referred to by a name left, and the names
removed are those that no cycle leads to.

## Main definitions

* `Removal.Invariant` — what holds of every state of the removal.
-/

namespace AsnModel

open Relation

namespace DependencyGraph

variable {g : DependencyGraph}

/-- Without an entry, each of its references has one referrer less. -/
theorem referrers_eq_referrers_erase {root : String} {references : List String}
    (h : (root, references) ∈ g.entries) (n : String) :
    g.referrers n = referrers (g.erase root) n + if n ∈ references then 1 else 0 := by
  simp only [referrers, (OrderedMap.perm_cons_erase h).countP_eq, List.countP_cons,
    decide_eq_true_eq]

theorem referrers_pos_iff (n : String) : 0 < g.referrers n ↔ ∃ a, g.Refers a n := by
  simp [referrers, Refers, List.countP_pos_iff]

end DependencyGraph

namespace Removal

/-! ## Releasing references -/

theorem degree_foldl_release {references : List String} (h : references.Nodup) (s : Removal)
    (n : String) :
    (references.foldl release s).degree n =
      if n ∈ references then s.degree n - 1 else s.degree n := by
  induction references generalizing s with
  | nil => rfl
  | cons r rs ih =>
    obtain ⟨hr, hrs⟩ := List.nodup_cons.1 h
    rw [List.foldl_cons, ih hrs]
    by_cases hn : n = r
    · subst hn
      simp [hr, release]
    · simp [hn, release]

/-- The references that have lost their last referrer become roots, the last one first. -/
theorem roots_foldl_release {references : List String} (h : references.Nodup) (s : Removal) :
    (references.foldl release s).roots =
      (references.filter fun r => s.degree r - 1 = 0).reverse ++ s.roots := by
  induction references generalizing s with
  | nil => rfl
  | cons r rs ih =>
    obtain ⟨hr, hrs⟩ := List.nodup_cons.1 h
    have hsame : rs.filter (fun x => (s.release r).degree x - 1 = 0) =
        rs.filter fun x => s.degree x - 1 = 0 := by
      refine List.filter_congr fun x hx => ?_
      simp [release, ne_of_mem_of_not_mem hx hr]
    rw [List.foldl_cons, ih hrs, hsame]
    by_cases hzero : s.degree r - 1 = 0 <;> simp [release, hzero]

@[simp] theorem order_foldl_release (references : List String) (s : Removal) :
    (references.foldl release s).order = s.order := by
  induction references generalizing s with
  | nil => rfl
  | cons r rs ih => rw [List.foldl_cons, ih, release]

@[simp] theorem order_remove (s : Removal) (root : String) (rest : List String) :
    (s.remove root rest).order = root :: s.order := by
  simp [remove]

theorem degree_remove {s : Removal} {root : String} {references : List String}
    (h : s.graph.get? root = some references) (hnodup : references.Nodup) (rest : List String)
    (n : String) :
    (s.remove root rest).degree n =
      if n ∈ references then s.degree n - 1 else s.degree n := by
  simp only [remove, h, Option.getD_some]
  exact degree_foldl_release hnodup _ n

theorem roots_remove {s : Removal} {root : String} {references : List String}
    (h : s.graph.get? root = some references) (hnodup : references.Nodup) (rest : List String) :
    (s.remove root rest).roots =
      (references.filter fun r => s.degree r - 1 = 0).reverse ++ rest := by
  simp only [remove, h, Option.getD_some]
  exact roots_foldl_release hnodup _

/-! ## The invariant -/

/-- What holds of every state `s` in the removal of names from `g`. -/
structure Invariant (g : DependencyGraph) (s : Removal) : Prop where
  /-- Just the names put in order are gone. -/
  graph_eq : s.graph = g.filter fun name _ => name ∉ s.order
  degree_eq : ∀ n ∈ s.graph.keys, s.degree n = s.graph.referrers n
  nodup_roots : s.roots.Nodup
  mem_roots : ∀ n, n ∈ s.roots ↔ n ∈ s.graph.keys ∧ s.graph.referrers n = 0
  nodup_order : s.order.Nodup
  mem_keys_of_order : ∀ n ∈ s.order, n ∈ g.keys
  /-- Nothing that is left refers to a name that is gone. -/
  not_refers : ∀ a ∈ s.graph.keys, ∀ b ∈ s.order, ¬ g.Refers a b
  /-- No name in order refers to a later one. -/
  order_pairwise : s.order.Pairwise fun a b => ¬ g.Refers a b

namespace Invariant

variable {g : DependencyGraph} {s : Removal}

theorem start (g : DependencyGraph) : Invariant g (Removal.start g) where
  graph_eq := (OrderedMap.filter_eq_self (by simp [Removal.start])).symm
  degree_eq _ _ := rfl
  nodup_roots := List.nodup_reverse.2 (g.nodup_keys.filter _)
  mem_roots := by simp [Removal.start]
  nodup_order := .nil
  mem_keys_of_order := by simp [Removal.start]
  not_refers := by simp [Removal.start]
  order_pairwise := .nil

theorem mem_keys_iff (h : Invariant g s) (n : String) :
    n ∈ s.graph.keys ↔ n ∈ g.keys ∧ n ∉ s.order := by
  rw [h.graph_eq, OrderedMap.keys_filter_key]
  simp

theorem mem_entries_iff (h : Invariant g s) (n : String) (references : List String) :
    (n, references) ∈ s.graph.entries ↔ (n, references) ∈ g.entries ∧ n ∉ s.order := by
  rw [h.graph_eq, OrderedMap.mem_entries_filter, decide_eq_true_eq]

/-- What a name that is left refers to is left as well. -/
theorem mem_keys_of_refers (h : Invariant g s) (hg : g.IsProper) {a b : String}
    (ha : a ∈ s.graph.keys) (hab : g.Refers a b) : b ∈ s.graph.keys :=
  (h.mem_keys_iff b).2 ⟨hg.mem_keys hab, fun hb => h.not_refers a ha b hb hab⟩

/-- A root has no referrer left. -/
theorem not_refers_of_referrers_eq_zero (h : Invariant g s) {a b : String}
    (hzero : s.graph.referrers b = 0) (ha : a ∈ s.graph.keys) : ¬ g.Refers a b := by
  rintro ⟨rs, hrs, hmem⟩
  have hleft : s.graph.Refers a b :=
    ⟨rs, (h.mem_entries_iff _ _).2 ⟨hrs, ((h.mem_keys_iff a).1 ha).2⟩, hmem⟩
  have hpos := (DependencyGraph.referrers_pos_iff b).2 ⟨a, hleft⟩
  omega

/-- A reference of a name counts the name, so that taking one away from its degree is exact. -/
theorem degree_sub_one (h : Invariant g s) {a b : String} {references : List String}
    (hentry : (a, references) ∈ s.graph.entries) (hb : b ∈ references) (hleft : b ∈ s.graph.keys) :
    s.degree b - 1 = DependencyGraph.referrers (s.graph.erase a) b := by
  rw [h.degree_eq b hleft, DependencyGraph.referrers_eq_referrers_erase hentry b, if_pos hb,
    Nat.add_sub_cancel]

/-- The removal of one root keeps the invariant. -/
theorem remove (h : Invariant g s) (hg : g.IsProper) {root : String} {rest : List String}
    (hroots : s.roots = root :: rest) : Invariant g (s.remove root rest) := by
  obtain ⟨hkey, hzero⟩ := (h.mem_roots root).1 (by simp [hroots])
  obtain ⟨references, hentry⟩ := (OrderedMap.mem_keys_iff _ _).1 hkey
  have hget := (OrderedMap.get?_eq_some_iff _ _ _).2 hentry
  have hentry' := ((h.mem_entries_iff _ _).1 hentry).1
  have hnodup := hg.nodup hentry'
  have hrefers : ∀ r ∈ references, g.Refers root r := fun r hr => ⟨references, hentry', hr⟩
  have hrest : root ∉ rest ∧ rest.Nodup := List.nodup_cons.1 (hroots ▸ h.nodup_roots)
  have hleft : ∀ r ∈ references, r ∈ s.graph.keys := fun r hr =>
    h.mem_keys_of_refers hg hkey (hrefers r hr)
  have hcount := DependencyGraph.referrers_eq_referrers_erase hentry
  have hrelease : ∀ r ∈ references,
      s.degree r - 1 = DependencyGraph.referrers (s.graph.erase root) r := fun r hr =>
    h.degree_sub_one hentry hr (hleft r hr)
  have hmem_erase : ∀ n, n ∈ (s.graph.erase root).keys ↔ n ∈ s.graph.keys ∧ n ≠ root := by
    simp [OrderedMap.keys_erase]
  have hmem_rest : ∀ n, n ∈ rest ↔ n ∈ s.roots ∧ n ≠ root := by
    intro n
    rw [hroots, List.mem_cons]
    exact ⟨fun hn => ⟨.inr hn, ne_of_mem_of_not_mem hn hrest.1⟩, by tauto⟩
  constructor
  case graph_eq =>
    rw [graph_remove, order_remove, h.graph_eq, OrderedMap.erase, OrderedMap.filter_filter]
    simp
  case degree_eq =>
    intro n hn
    rw [graph_remove, hmem_erase] at hn
    rw [graph_remove, degree_remove hget hnodup]
    split_ifs with hr
    · exact hrelease n hr
    · rw [h.degree_eq n hn.1, hcount n, if_neg hr, Nat.add_zero]
  case nodup_roots =>
    rw [roots_remove hget hnodup]
    refine List.nodup_append'.2 ⟨List.nodup_reverse.2 (hnodup.filter _), hrest.2, ?_⟩
    intro r hr hr'
    have hr := List.mem_of_mem_filter (List.mem_reverse.1 hr)
    have hpos := ((h.mem_roots r).1 ((hmem_rest r).1 hr').1).2
    rw [hcount r, if_pos hr] at hpos
    omega
  case mem_roots =>
    intro n
    rw [roots_remove hget hnodup, graph_remove, List.mem_append, List.mem_reverse, List.mem_filter,
      hmem_erase, hmem_rest, h.mem_roots, decide_eq_true_eq]
    have hne : n ∈ references → n ≠ root := fun hr => hg.ne (hrefers n hr)
    by_cases hr : n ∈ references
    · have hn := hcount n
      rw [if_pos hr] at hn
      simp only [hr, hleft n hr, hne hr, hrelease n hr, ne_eq, not_false_eq_true, true_and,
        and_true]
      omega
    · simp only [hr, hcount n, if_false, false_and, false_or, Nat.add_zero]
      tauto
  case nodup_order =>
    rw [order_remove]
    exact List.nodup_cons.2 ⟨((h.mem_keys_iff root).1 hkey).2, h.nodup_order⟩
  case mem_keys_of_order =>
    rw [order_remove]
    exact List.forall_mem_cons.2 ⟨((h.mem_keys_iff root).1 hkey).1, h.mem_keys_of_order⟩
  case not_refers =>
    intro a ha b hb hab
    rw [graph_remove, hmem_erase] at ha
    rw [order_remove] at hb
    rcases List.mem_cons.1 hb with rfl | hb
    · exact h.not_refers_of_referrers_eq_zero hzero ha.1 hab
    · exact h.not_refers a ha.1 b hb hab
  case order_pairwise =>
    rw [order_remove]
    exact List.pairwise_cons.2 ⟨h.not_refers root hkey, h.order_pairwise⟩

/-- The invariant holds when there are no roots any more. -/
theorem run (h : Invariant g s) (hg : g.IsProper) : Invariant g s.run ∧ s.run.roots = [] := by
  fun_induction Removal.run s with
  | case1 s hroots => exact ⟨h, hroots⟩
  | case2 s root rest hroots ih => exact ih (h.remove hg hroots)

/-! ## Names in order -/

/-- Everything that refers to a name in order stands behind it. -/
theorem idxOf_lt_of_refers (h : Invariant g s) (hg : g.IsProper) {a b : String}
    (hab : g.Refers a b) (hb : b ∈ s.order) :
    a ∈ s.order ∧ s.order.idxOf b < s.order.idxOf a := by
  have ha : a ∈ s.order := by
    by_contra hmem
    exact h.not_refers a ((h.mem_keys_iff a).2 ⟨hab.left_mem, hmem⟩) b hb hab
  refine ⟨ha, ?_⟩
  by_contra hle
  rcases Nat.lt_or_eq_of_le (Nat.le_of_not_lt hle) with hlt | heq
  · have hpair := List.pairwise_iff_getElem.1 h.order_pairwise _ _ (List.idxOf_lt_length_of_mem ha)
      (List.idxOf_lt_length_of_mem hb) hlt
    rw [List.getElem_idxOf, List.getElem_idxOf] at hpair
    exact hpair hab
  · exact hg.ne hab ((List.idxOf_inj ha).1 heq).symm

theorem idxOf_lt_of_transGen (h : Invariant g s) (hg : g.IsProper) {a b : String}
    (hab : TransGen g.Refers a b) (hb : b ∈ s.order) :
    a ∈ s.order ∧ s.order.idxOf b < s.order.idxOf a := by
  induction hab using TransGen.head_induction_on with
  | single hab => exact h.idxOf_lt_of_refers hg hab hb
  | head hac _ ih =>
    obtain ⟨hc, hlt⟩ := ih
    obtain ⟨ha, hlt'⟩ := h.idxOf_lt_of_refers hg hac hc
    exact ⟨ha, hlt.trans hlt'⟩

/-- No cycle leads to a name in order. -/
theorem not_mem_order_of_onCycle (h : Invariant g s) (hg : g.IsProper) {c n : String}
    (hc : OnCycle g.Refers c) (hpath : ReflTransGen g.Refers c n) : n ∉ s.order := by
  intro hn
  have hmem : c ∈ s.order := by
    rcases reflTransGen_iff_eq_or_transGen.1 hpath with rfl | hpath
    · exact hn
    · exact (h.idxOf_lt_of_transGen hg hpath hn).1
  exact (h.idxOf_lt_of_transGen hg hc hmem).2.false

/-- With no roots left, the names left are those that a cycle leads to. -/
theorem mem_keys_iff_of_roots_nil (h : Invariant g s) (hg : g.IsProper) (hroots : s.roots = [])
    (n : String) :
    n ∈ s.graph.keys ↔ ∃ c, OnCycle g.Refers c ∧ ReflTransGen g.Refers c n := by
  constructor
  · intro hn
    refine exists_onCycle_behind (List.finite_toSet s.graph.keys) (fun b hb => ?_) hn
    have hpos : 0 < s.graph.referrers b := by
      by_contra hzero
      have hroot := (h.mem_roots b).2 ⟨hb, by omega⟩
      simp [hroots] at hroot
    obtain ⟨a, rs, hrs, hmem⟩ := (DependencyGraph.referrers_pos_iff b).1 hpos
    exact ⟨a, OrderedMap.mem_keys_of_mem_entries hrs, rs, ((h.mem_entries_iff _ _).1 hrs).1, hmem⟩
  · rintro ⟨c, hc, hpath⟩
    refine (h.mem_keys_iff n).2 ⟨?_, h.not_mem_order_of_onCycle hg hc hpath⟩
    -- A cycle on the way has at least one edge, and the last edge of the path ends at `n`.
    obtain ⟨a, -, han⟩ := TransGen.tail'_iff.1 (hc.trans_left hpath)
    exact hg.mem_keys han

end Invariant

end Removal

end AsnModel
