import AsnModel.Proofs.Dependency.Visit

/-!
# Edges from a position to itself

While a position is visited it is on the stack, with an index that is not below what it is known to
reach. So an edge from a position to itself tells nothing new, and the search for components goes
the same way without such edges.

## Main definitions

* `otherEdges` — the edges to other positions.
-/

namespace AsnModel

/-- The edges that lead from a position to another one. -/
def otherEdges (edges : ℕ → List ℕ) (v : ℕ) : List ℕ := (edges v).filter (· ≠ v)

namespace Search

variable {count fuel : ℕ} {edges : ℕ → List ℕ} {s t : Search} {v : ℕ}

theorem lower_eq_self {i : ℕ} (h : t.low v ≤ i) : t.lower v i = t := by
  have hlow : (fun w => if w = v then min (t.low v) i else t.low w) = t.low := by
    funext w
    split_ifs with hw
    · rw [hw, Nat.min_eq_left h]
    · rfl
  simp only [Search.lower, hlow]

namespace Visiting

variable {followed : List ℕ} {visit : ℕ → Search → Search}

/-- An edge from a position to itself changes nothing. -/
theorem follow_self (h : Visiting count edges v s t followed) :
    Search.follow visit v t v = t := by
  have hself : t.onStack v = true := by
    obtain ⟨above, hstack, -⟩ := h.stack
    simp [h.inv.onStack_iff, hstack]
  simp only [Search.follow, h.index_self, hself, if_true]
  exact lower_eq_self h.low_le

/-- Edges that lead to other positions are enough. -/
theorem foldl_follow_filter (h : Visiting count edges v s t followed)
    (hvisit : VisitsWithin count edges fuel visit) (hv : v < count)
    (hfuel : s.unfound count ≤ fuel + 1) {ws : List ℕ} (hws : ∀ w ∈ ws, w ∈ edges v ∧ w < count) :
    (ws.filter (· ≠ v)).foldl (Search.follow visit v) t = ws.foldl (Search.follow visit v) t := by
  induction ws generalizing t followed with
  | nil => rfl
  | cons w ws ih =>
    obtain ⟨⟨hw, hcount⟩, hws⟩ := List.forall_mem_cons.1 hws
    by_cases hself : w = v
    · subst hself
      simpa [h.follow_self] using ih h hws
    · have hlt := h.extend.unfound_lt h.index_eq_none ⟨_, h.index_self⟩ hv
      simpa [hself] using ih (h.follow hvisit (by omega) hw hcount) hws

end Visiting

section Bounded

variable (hedges : ∀ v < count, ∀ w ∈ edges v, w < count)

include hedges

theorem connect_otherEdges (fuel : ℕ) : ∀ v s, Enterable count edges fuel s v →
    connect (otherEdges edges) fuel v s = connect edges fuel v s := by
  induction fuel with
  | zero =>
    intro v s _
    rfl
  | succ fuel ih =>
    intro v s h
    have hvisit := visitsWithin_connect hedges fuel
    have hws : ∀ w ∈ edges v, w ∈ edges v ∧ w < count := fun w hw =>
      ⟨hw, hedges v h.lt_count w hw⟩
    have hother : ∀ w ∈ otherEdges edges v, w ∈ edges v ∧ w < count := fun w hw =>
      hws w (List.mem_of_mem_filter hw)
    have hsame := h.visiting.foldl_follow_congr hvisit ih h.lt_count h.unfound_le hother
    have hfilter := h.visiting.foldl_follow_filter hvisit h.lt_count h.unfound_le hws
    rw [connect, connect, hsame, otherEdges, hfilter]

theorem connectBelow_otherEdges {n : ℕ} (hn : n ≤ count) :
    connectBelow count (otherEdges edges) n = connectBelow count edges n := by
  induction n with
  | zero => rfl
  | succ n ih =>
    rw [connectBelow_succ, connectBelow_succ, ih (by omega)]
    refine if_ctx_congr .rfl (fun hnone => ?_) fun _ => rfl
    exact connect_otherEdges hedges count n _ (enterable_connectBelow hedges hn hnone)

end Bounded

end Search

/-- The components do not depend on edges from a position to itself. -/
theorem strongComponents_otherEdges {count : ℕ} {edges : ℕ → List ℕ}
    (hedges : ∀ v < count, ∀ w ∈ edges v, w < count) :
    strongComponents count (otherEdges edges) = strongComponents count edges :=
  congrArg Search.components (Search.connectBelow_otherEdges hedges (Nat.le_refl count))

end AsnModel
