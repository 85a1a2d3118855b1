import AsnModel.OrderedMap
import Mathlib.Data.List.Basic

/-!
# Laws of ordered maps

What each operation of an ordered map does to its entries, and what a key finds afterwards.
-/

namespace AsnModel

namespace OrderedMap

universe u v w

variable {α : Type u} {β : Type v} {γ : Type w}

/-! ## Entries -/

@[simp] theorem mem_entries_filter (p : α → β → Bool) (m : OrderedMap α β) (k : α) (v : β) :
    (k, v) ∈ (m.filter p).entries ↔ (k, v) ∈ m.entries ∧ p k v = true := by
  simp [filter]

@[simp] theorem mem_entries_mapValues (f : α → β → γ) (m : OrderedMap α β) (k : α) (c : γ) :
    (k, c) ∈ (m.mapValues f).entries ↔ ∃ v, (k, v) ∈ m.entries ∧ f k v = c := by
  simp [mapValues]

theorem eq_of_entries_eq {m m' : OrderedMap α β} (h : m.entries = m'.entries) : m = m' := by
  cases m
  cases m'
  simpa using h

theorem mem_keys_iff (m : OrderedMap α β) (k : α) : k ∈ m.keys ↔ ∃ v, (k, v) ∈ m.entries := by
  simp [keys]

theorem mem_keys_of_mem_entries {m : OrderedMap α β} {k : α} {v : β} (h : (k, v) ∈ m.entries) :
    k ∈ m.keys := (m.mem_keys_iff k).2 ⟨v, h⟩

theorem keys_filter_sublist (p : α → β → Bool) (m : OrderedMap α β) :
    (m.filter p).keys.Sublist m.keys := List.filter_sublist.map _

theorem keys_filter_key (p : α → Bool) (m : OrderedMap α β) :
    (m.filter fun k _ => p k).keys = m.keys.filter p := by
  simp [keys, filter, List.filter_map, Function.comp_def]

theorem filter_filter (p q : α → β → Bool) (m : OrderedMap α β) :
    (m.filter p).filter q = m.filter fun k v => q k v && p k v := by
  simp [filter, List.filter_filter]

theorem filter_eq_self {p : α → β → Bool} {m : OrderedMap α β}
    (h : ∀ k v, (k, v) ∈ m.entries → p k v = true) : m.filter p = m := by
  obtain ⟨entries, nodup⟩ := m
  simpa [filter] using h

theorem size_eq_zero_iff (m : OrderedMap α β) : m.size = 0 ↔ m.keys = [] := by
  rw [← length_keys, List.length_eq_zero_iff]

/-- A filter that keeps as many entries as there are keeps all of them. -/
theorem filter_eq_self_of_size_le {p : α → β → Bool} {m : OrderedMap α β}
    (h : m.size ≤ (m.filter p).size) : m.filter p = m := by
  obtain ⟨entries, nodup⟩ := m
  have hsub : (entries.filter fun e => p e.1 e.2).Sublist entries := List.filter_sublist
  simpa [filter] using hsub.eq_of_length_le h

variable [DecidableEq α]

/-- The entry of a key, and those that are left when the key is removed. -/
theorem perm_cons_erase {m : OrderedMap α β} {k : α} {v : β} (h : (k, v) ∈ m.entries) :
    m.entries.Perm ((k, v) :: (m.erase k).entries) := by
  obtain ⟨entries, nodup⟩ := m
  induction entries with
  | nil => simp at h
  | cons e es ih =>
    simp only [List.map_cons, List.nodup_cons] at nodup
    rcases List.mem_cons.1 h with rfl | hmem
    · have hkeep : es.filter (fun e => !decide (e.1 = k)) = es := by
        simp only [List.filter_eq_self, Bool.not_eq_true', decide_eq_false_iff_not]
        exact fun e he hk => nodup.1 (List.mem_map.2 ⟨e, he, hk⟩)
      simp [erase, filter, hkeep]
    · have hne : e.1 ≠ k := fun hk => nodup.1 (List.mem_map.2 ⟨_, hmem, hk.symm⟩)
      simpa [erase, filter, hne] using ((ih nodup.2 hmem).cons e).trans (.swap _ _ _)

/-- Erasing keys one after the other leaves the other entries. -/
theorem foldl_erase (m : OrderedMap α β) (ks : List α) :
    ks.foldl erase m = m.filter fun k _ => k ∉ ks := by
  induction ks generalizing m with
  | nil => exact (filter_eq_self (by simp)).symm
  | cons k ks ih =>
    rw [List.foldl_cons, ih, erase, filter_filter]
    refine congrArg (fun p => m.filter p) ?_
    funext k' _
    simp [Bool.and_comm]

/-! ## Values -/

/-- A map is determined by its keys, in order, and what they find. -/
theorem entries_eq_filterMap_keys (m : OrderedMap α β) :
    m.entries = m.keys.filterMap fun k => (m.get? k).map (k, ·) := by
  have hfind : ∀ e ∈ m.entries, (m.get? e.1).map (e.1, ·) = some e := by
    intro e he
    rw [(m.get?_eq_some_iff e.1 e.2).2 he, Option.map_some]
  rw [keys, List.filterMap_map]
  exact List.filterMap_some.symm.trans (List.filterMap_congr hfind).symm

theorem get?_mapValues (f : α → β → γ) (m : OrderedMap α β) (k : α) :
    (m.mapValues f).get? k = (m.get? k).map (f k) := by
  ext c
  simp [get?_eq_some_iff]

theorem get?_alter (m : OrderedMap α β) (k k' : α) (f : Option β → β) :
    (m.alter k f).get? k' = if k' = k then some (f (m.get? k)) else m.get? k' := by
  unfold alter
  split_ifs with hmem heq heq
  · subst heq
    obtain ⟨v, hv⟩ := Option.ne_none_iff_exists'.1 (mt (m.get?_eq_none_iff k').1 (by simpa))
    simp [get?_mapValues, hv]
  · simp [get?_mapValues, heq]
  · subst heq
    rw [(m.get?_eq_none_iff k').2 hmem, get?_eq_some_iff]
    simp
  · ext v
    simp [get?_eq_some_iff, heq]

theorem get?_insert (m : OrderedMap α β) (k k' : α) (v : β) :
    (m.insert k v).get? k' = if k' = k then some v else m.get? k' := m.get?_alter k k' fun _ => v

/-! ## Positions -/

theorem get?_foldl_insert {names : List α} (hnames : names.Nodup) (m : OrderedMap α Nat)
    (start : Nat) (name : α) :
    ((names.zipIdx start).foldl (fun m e => m.insert e.1 e.2) m).get? name =
      if name ∈ names then some (start + names.idxOf name) else m.get? name := by
  induction names generalizing m start with
  | nil => simp
  | cons n ns ih =>
    obtain ⟨hn, hns⟩ := List.nodup_cons.1 hnames
    rw [List.zipIdx_cons, List.foldl_cons, ih hns, get?_insert]
    by_cases heq : name = n
    · simp [heq, hn]
    · simp only [List.mem_cons, heq, false_or, List.idxOf_cons_ne _ (Ne.symm heq), if_false]
      split_ifs
      · congr 1
        omega
      · rfl

/-- The members of a list stand at increasing positions. -/
theorem pairwise_get?_zipIdx {names : List α} (hnames : names.Nodup) :
    names.Pairwise fun n n' =>
      compare ((ofList names.zipIdx).get? n) ((ofList names.zipIdx).get? n') = .lt := by
  have hget : ∀ i (h : i < names.length), (ofList names.zipIdx).get? names[i] = some i := by
    intro i h
    rw [ofList, get?_foldl_insert hnames, if_pos (List.getElem_mem h), hnames.idxOf_getElem,
      Nat.zero_add]
  refine List.pairwise_iff_getElem.2 fun i j hi hj hlt => ?_
  rw [hget i hi, hget j hj]
  exact Nat.compare_eq_lt.2 hlt

end OrderedMap

end AsnModel
