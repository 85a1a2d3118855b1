import AsnModel.Dependency.Topological
import Mathlib.Data.List.Nodup

/-!
# Stable sorting

A sort is stable if members with the same key keep their order. The sorted list is then made up of
one group for each key, and in each group the members stand as they did before.
-/

namespace AsnModel

open Std

universe u v w

/-! ## Grouping a list by keys -/

section Grouping

variable {α : Type u} {κ : Type v} [DecidableEq κ] {f : α → κ} {keys : List κ} {items : List α}

/-- A group has members of its own key only. -/
theorem filter_filter_key (items : List α) (k k' : κ) :
    (items.filter fun a => f a = k').filter (fun a => f a = k) =
      if k = k' then items.filter fun a => f a = k else [] := by
  split_ifs with hk
  · subst hk
    simp [List.filter_filter]
  · simp only [List.filter_filter, List.filter_eq_nil_iff, Bool.and_eq_true, decide_eq_true_eq]
    rintro a - ⟨rfl, rfl⟩
    exact hk rfl

/-- Grouping keeps the order of the members of one key. -/
theorem filter_flatMap_filter (hkeys : keys.Nodup) (k : κ) :
    ((keys.flatMap fun k => items.filter fun a => f a = k).filter fun a => f a = k) =
      if k ∈ keys then items.filter fun a => f a = k else [] := by
  induction keys with
  | nil => rfl
  | cons k' ks ih =>
    obtain ⟨hk', hks⟩ := List.nodup_cons.1 hkeys
    rw [List.flatMap_cons, List.filter_append, filter_filter_key, ih hks]
    by_cases hk : k = k'
    · simp [hk, hk']
    · simp [hk]

/-- Two lists in the same order are equal if they have the same members of each key, provided that
members of different keys are never level with each other. -/
theorem eq_of_filter_key_eq {le : α → α → Prop} {l l' : List α}
    (hkey : ∀ a ∈ l, ∀ b ∈ l, le a b → le b a → f a = f b) (hl : l.Pairwise le)
    (hl' : l'.Pairwise le) (h : ∀ k, (l.filter fun a => f a = k) = l'.filter fun a => f a = k) :
    l = l' := by
  induction l generalizing l' with
  | nil =>
    cases l' with
    | nil => rfl
    | cons b bs => simpa using h (f b)
  | cons a as ih =>
    cases l' with
    | nil => simpa using h (f a)
    | cons b bs =>
      have hmem : ∀ c, c ∈ a :: as ↔ c ∈ b :: bs := fun c => by
        simpa [List.mem_filter] using iff_of_eq (congrArg (c ∈ ·) (h (f c)))
      obtain ⟨ha, has⟩ := List.pairwise_cons.1 hl
      obtain ⟨hb, hbs⟩ := List.pairwise_cons.1 hl'
      -- Otherwise each of the two would stand somewhere behind the other one.
      have hhead : f a = f b := by
        by_contra hne
        have hafter : b ∈ as := by grind
        have hbefore : a ∈ bs := by grind
        exact hne (hkey a List.mem_cons_self b (.tail a hafter) (ha b hafter) (hb a hbefore))
      have hfirst := h (f b)
      simp only [List.filter_cons, hhead, decide_true, if_true, List.cons.injEq] at hfirst
      obtain ⟨rfl, -⟩ := hfirst
      have hrest : ∀ k, (as.filter fun c => f c = k) = bs.filter fun c => f c = k := fun k => by
        have hk := h k
        by_cases heq : f a = k <;> simpa [heq] using hk
      rw [ih (fun c hc d hd => hkey c (.tail a hc) d (.tail a hd)) has hbs hrest]

end Grouping

/-! ## Sorting by a key -/

section Sorting

variable {α : Type u} {κ : Type v} {ρ : Type w} [Ord ρ]

theorem perm_sortByKey (key : α → ρ) (l : List α) : (sortByKey key l).Perm l :=
  List.mergeSort_perm ..

variable [TransOrd ρ]

theorem isLE_or_isLE (r r' : ρ) : ((compare r r').isLE || (compare r' r).isLE) = true := by
  rw [OrientedOrd.eq_swap (a := r')]
  cases compare r r' <;> rfl

theorem isLE_self (r : ρ) : (compare r r).isLE = true := by
  rw [ReflOrd.compare_self]
  rfl

theorem pairwise_sortByKey (key : α → ρ) (l : List α) :
    (sortByKey key l).Pairwise fun a b => (compare (key a) (key b)).isLE = true :=
  List.pairwise_mergeSort (fun _ _ _ => TransCmp.isLE_trans) (fun _ _ => isLE_or_isLE _ _) l

variable [DecidableEq κ] {f : α → κ} {rank : κ → ρ} {keys : List κ}

/-- Members of one key are level with each other. -/
theorem pairwise_group (f : α → κ) (rank : κ → ρ) (l : List α) (k : κ) :
    (l.filter fun a => f a = k).Pairwise fun a b =>
      (compare (rank (f a)) (rank (f b))).isLE = true := by
  refine List.pairwise_of_forall_mem_list fun a ha b hb => ?_
  have hak : f a = k := by grind
  have hbk : f b = k := by grind
  rw [hak, hbk]
  exact isLE_self (rank k)

/-- The sort is stable: members that share what the key is made of keep their order. -/
theorem filter_sortByKey (rank : κ → ρ) (l : List α) (k : κ) :
    ((sortByKey (fun a => rank (f a)) l).filter fun a => f a = k) = l.filter fun a => f a = k := by
  have hsublist := (List.sublist_mergeSort (fun _ _ _ => TransCmp.isLE_trans)
    (fun _ _ => isLE_or_isLE _ _) (pairwise_group f rank l k) List.filter_sublist).filter
    fun a => f a = k
  simp only [List.filter_filter, Bool.and_self] at hsublist
  exact (hsublist.eq_of_length ((perm_sortByKey _ l).filter _).length_eq.symm).symm

/-- A sorted list is made up of the groups of its keys. -/
theorem sortByKey_eq_flatMap_filter [LawfulEqOrd ρ] {l : List α}
    (hkeys : keys.Pairwise fun k k' => compare (rank k) (rank k') = .lt)
    (hmem : ∀ a ∈ l, f a ∈ keys) :
    sortByKey (fun a => rank (f a)) l = keys.flatMap fun k => l.filter fun a => f a = k := by
  have hranks : (keys.map rank).Nodup := List.pairwise_map.2 <| hkeys.imp fun hlt heq => by
    rw [heq, ReflOrd.compare_self] at hlt
    cases hlt
  refine eq_of_filter_key_eq (f := f) ?_ (pairwise_sortByKey _ l) ?_ fun k => ?_
  · intro a ha b hb hab hba
    have hrank := LawfulEqOrd.eq_of_compare (OrientedCmp.isLE_antisymm hab hba)
    exact List.inj_on_of_nodup_map hranks (hmem a ((perm_sortByKey _ l).mem_iff.1 ha))
      (hmem b ((perm_sortByKey _ l).mem_iff.1 hb)) hrank
  · refine List.pairwise_flatMap.2 ⟨fun k _ => pairwise_group f rank l k, hkeys.imp ?_⟩
    intro k k' hlt a ha b hb
    have hak : f a = k := by grind
    have hbk : f b = k' := by grind
    rw [hak, hbk, hlt]
    rfl
  · rw [filter_sortByKey, filter_flatMap_filter hranks.of_map]
    split_ifs with hk
    · rfl
    · refine List.filter_eq_nil_iff.2 fun a ha => ?_
      simpa using fun heq : f a = k => hk (heq ▸ hmem a ha)

end Sorting

end AsnModel
