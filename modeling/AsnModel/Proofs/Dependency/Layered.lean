import Mathlib.Data.List.Nodup
import Mathlib.Logic.Relation

/-!
# Components in the order of dependency

A list of components is layered if the members of each component reach each other and edges lead
only to the same component or to an earlier one. Then two members are in one component exactly if
each reaches the other.

## Main definitions

* `Reaches` — a path of edges leads from one position to another.
* `Layered` — components that can be finished one after the other.
-/

namespace AsnModel

open Relation

variable {edges : ℕ → List ℕ}

/-- A path of edges, possibly empty, leads from `v` to `w`. -/
def Reaches (edges : ℕ → List ℕ) (v w : ℕ) : Prop := ReflTransGen (fun v w => w ∈ edges v) v w

theorem Reaches.refl (v : ℕ) : Reaches edges v v := ReflTransGen.refl

theorem Reaches.trans {u v w : ℕ} (h : Reaches edges u v) (h' : Reaches edges v w) :
    Reaches edges u w := ReflTransGen.trans h h'

theorem Reaches.tail {u v w : ℕ} (h : Reaches edges u v) (h' : w ∈ edges v) : Reaches edges u w :=
  ReflTransGen.tail h h'

theorem Reaches.head {u v w : ℕ} (h : v ∈ edges u) (h' : Reaches edges v w) : Reaches edges u w :=
  ReflTransGen.head h h'

/-- Each component is nonempty, its members reach each other, and edges lead from it only to itself
and to the components before it. -/
inductive Layered (edges : ℕ → List ℕ) : List (List ℕ) → Prop
  | nil : Layered edges []
  | concat {cs : List (List ℕ)} {c : List ℕ} (before : Layered edges cs) (ne_nil : c ≠ [])
      (reaches : ∀ v ∈ c, ∀ w ∈ c, Reaches edges v w)
      (closed : ∀ v ∈ c, ∀ w ∈ edges v, w ∈ c ∨ w ∈ cs.flatten) : Layered edges (cs ++ [c])

namespace Layered

variable {cs : List (List ℕ)}

theorem ne_nil_of_mem (h : Layered edges cs) : ∀ c ∈ cs, c ≠ [] := by
  induction h with
  | nil => simp
  | concat _ hne _ _ ih => simpa [or_imp, forall_and] using ⟨ih, hne⟩

theorem reaches_of_mem (h : Layered edges cs) :
    ∀ c ∈ cs, ∀ v ∈ c, ∀ w ∈ c, Reaches edges v w := by
  induction h with
  | nil => simp
  | @concat cs c _ _ hreaches _ ih =>
    intro c' hc'
    rcases List.mem_append.1 hc' with hc' | hc'
    · exact ih c' hc'
    · rw [List.mem_singleton.1 hc']
      exact hreaches

theorem mem_flatten_of_edge (h : Layered edges cs) {v w : ℕ} (hv : v ∈ cs.flatten)
    (hw : w ∈ edges v) : w ∈ cs.flatten := by
  induction h with
  | nil => simp at hv
  | concat _ _ _ hclosed ih =>
    simp only [List.flatten_append, List.flatten_singleton, List.mem_append] at hv ⊢
    rcases hv with hv | hv
    · exact .inl (ih hv)
    · exact (hclosed v hv w hw).symm

/-- An edge leads to the same component or to one before it. -/
theorem le_of_edge (h : Layered edges cs) (hnodup : cs.flatten.Nodup) {k l : ℕ}
    (hk : k < cs.length) (hl : l < cs.length) {v w : ℕ} (hv : v ∈ cs[k]) (hw : w ∈ cs[l])
    (hedge : w ∈ edges v) : l ≤ k := by
  induction h with
  | nil => simp at hk
  | @concat cs c hbefore _ _ _ ih =>
    rw [List.flatten_append, List.flatten_singleton, List.nodup_append'] at hnodup
    simp only [List.length_append, List.length_singleton] at hk hl
    by_cases hk' : k < cs.length
    · rw [List.getElem_append_left hk'] at hv
      by_cases hl' : l < cs.length
      · rw [List.getElem_append_left hl'] at hw
        exact ih hnodup.1 hk' hl' hv hw
      · -- What a component before the last one leads to is not in the last one.
        have hlast : l = cs.length := by omega
        subst hlast
        have hmem := hbefore.mem_flatten_of_edge
          (List.mem_flatten.2 ⟨_, List.getElem_mem hk', hv⟩) hedge
        exact absurd (by simpa using hw) (hnodup.2.2 hmem)
    · omega

theorem exists_mem_of_reaches (h : Layered edges cs) (hnodup : cs.flatten.Nodup) {k : ℕ}
    (hk : k < cs.length) {v w : ℕ} (hv : v ∈ cs[k]) (hpath : Reaches edges v w) :
    ∃ (l : ℕ) (hl : l < cs.length), w ∈ cs[l] ∧ l ≤ k := by
  induction hpath with
  | refl => exact ⟨k, hk, hv, Nat.le_refl k⟩
  | tail _ hedge ih =>
    obtain ⟨l, hl, hmem, hle⟩ := ih
    obtain ⟨c, hc, hwc⟩ := List.mem_flatten.1 (h.mem_flatten_of_edge
      (List.mem_flatten.2 ⟨_, List.getElem_mem hl, hmem⟩) hedge)
    obtain ⟨m, hm, rfl⟩ := List.getElem_of_mem hc
    exact ⟨m, hm, hwc, Nat.le_trans (h.le_of_edge hnodup hl hm hmem hwc hedge) hle⟩

/-- A member is in one component only. -/
theorem eq_of_mem_of_mem (hnodup : cs.flatten.Nodup) {k l : ℕ} (hk : k < cs.length)
    (hl : l < cs.length) {v : ℕ} (hv : v ∈ cs[k]) (hv' : v ∈ cs[l]) : k = l := by
  by_contra hne
  wlog hlt : k < l generalizing k l
  · exact this hl hk hv' hv (Ne.symm hne) (by omega)
  exact List.pairwise_iff_getElem.1 (List.nodup_flatten.1 hnodup).2 k l hk hl hlt hv hv'

theorem eq_of_reaches_of_reaches (h : Layered edges cs) (hnodup : cs.flatten.Nodup) {k l : ℕ}
    (hk : k < cs.length) (hl : l < cs.length) {v w : ℕ} (hv : v ∈ cs[k]) (hw : w ∈ cs[l])
    (hvw : Reaches edges v w) (hwv : Reaches edges w v) : k = l := by
  obtain ⟨l', hl', hw', hle⟩ := h.exists_mem_of_reaches hnodup hk hv hvw
  obtain ⟨k', hk', hv', hle'⟩ := h.exists_mem_of_reaches hnodup hl hw hwv
  have hll := eq_of_mem_of_mem hnodup hl hl' hw hw'
  have hkk := eq_of_mem_of_mem hnodup hk hk' hv hv'
  omega

/-- Two positions are in one component exactly if each reaches the other. -/
theorem exists_mem_and_mem_iff (h : Layered edges cs) (hnodup : cs.flatten.Nodup) {v w : ℕ}
    (hv : v ∈ cs.flatten) (hw : w ∈ cs.flatten) :
    (∃ c ∈ cs, v ∈ c ∧ w ∈ c) ↔ Reaches edges v w ∧ Reaches edges w v := by
  constructor
  · rintro ⟨c, hc, hvc, hwc⟩
    exact ⟨h.reaches_of_mem c hc v hvc w hwc, h.reaches_of_mem c hc w hwc v hvc⟩
  · rintro ⟨hvw, hwv⟩
    obtain ⟨c, hc, hvc⟩ := List.mem_flatten.1 hv
    obtain ⟨c', hc', hwc'⟩ := List.mem_flatten.1 hw
    obtain ⟨k, hk, rfl⟩ := List.getElem_of_mem hc
    obtain ⟨l, hl, rfl⟩ := List.getElem_of_mem hc'
    obtain rfl := h.eq_of_reaches_of_reaches hnodup hk hl hvc hwc' hvw hwv
    exact ⟨_, hc, hvc, hwc'⟩

end Layered

end AsnModel
