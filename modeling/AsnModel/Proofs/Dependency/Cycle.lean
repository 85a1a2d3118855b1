import Mathlib.Data.Fintype.Pigeonhole
import Mathlib.Data.Set.Finite.Basic
import Mathlib.Logic.Relation

/-!
# Cycles of a relation

A value lies on a cycle if a nonempty path leads from it back to itself. In a finite set that can
never be left for good, every path that stays in the set runs into a cycle.

## Main definitions

* `OnCycle` — the values that lie on a cycle.
-/

namespace AsnModel

open Relation

variable {β : Type*} {r : β → β → Prop}

/-- A nonempty path leads from `a` back to `a`. -/
def OnCycle (r : β → β → Prop) (a : β) : Prop := TransGen r a a

theorem OnCycle.swap {a : β} (h : OnCycle (Function.swap r) a) : OnCycle r a := transGen_swap.1 h

/-- Values that follow each other along `r` are joined by nonempty paths. -/
theorem transGen_of_lt {f : ℕ → β} (hf : ∀ n, r (f n) (f (n + 1))) {i j : ℕ} (hij : i < j) :
    TransGen r (f i) (f j) := by
  induction j, hij using Nat.le_induction with
  | base => exact .single (hf i)
  | succ j _ ih => exact ih.tail (hf j)

/-- If every member of a finite set has a successor in the set, then a path leads from every member
to a cycle. -/
theorem exists_onCycle_ahead {s : Set β} (hs : s.Finite) (h : ∀ a ∈ s, ∃ b ∈ s, r a b) {a : β}
    (ha : a ∈ s) : ∃ c, OnCycle r c ∧ ReflTransGen r a c := by
  have := hs.to_subtype
  choose! next hmem hnext using h
  -- Follow successors from `a`: a finite set makes the path meet one of its own values again.
  let step : s → s := fun x => ⟨next x, hmem x x.2⟩
  let path : ℕ → s := fun n => step^[n] ⟨a, ha⟩
  have hpath : ∀ n, r (path n) (path (n + 1)) := by
    intro n
    simpa only [path, Function.iterate_succ_apply'] using hnext _ (path n).2
  obtain ⟨i, j, hne, heq⟩ := Finite.exists_ne_map_eq_of_infinite path
  wlog hij : i < j generalizing i j
  · exact this j i hne.symm heq.symm (by omega)
  refine ⟨path i, ?_, ?_⟩
  · have hcycle := transGen_of_lt (f := fun n => (path n : β)) hpath hij
    rwa [← heq] at hcycle
  · rcases Nat.eq_zero_or_pos i with rfl | hpos
    · exact .refl
    · exact (transGen_of_lt (f := fun n => (path n : β)) hpath hpos).to_reflTransGen

/-- If every member of a finite set has a predecessor in the set, then a path leads from a cycle to
every member. -/
theorem exists_onCycle_behind {s : Set β} (hs : s.Finite) (h : ∀ a ∈ s, ∃ b ∈ s, r b a) {a : β}
    (ha : a ∈ s) : ∃ c, OnCycle r c ∧ ReflTransGen r c a := by
  obtain ⟨c, hc, hpath⟩ := exists_onCycle_ahead (r := Function.swap r) hs h ha
  exact ⟨c, hc.swap, reflTransGen_swap.1 hpath⟩

end AsnModel
