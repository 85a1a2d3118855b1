import AsnModel.Proofs.Dependency.Search

/-!
# Visits in the search for components

A visit of a position either finishes the component of the position and leaves the stack as it was,
or leaves the position on the stack, with others above it, because it reaches a position further
down. Every position that can be reached has then been found, so that the components of a whole
search are layered and have every position once.

## Main definitions

* `Search.Extends` — what a visit does not change.
* `Search.Open` — positions that stay on the stack until a given one is left.
* `Search.Enterable`, `Search.Visiting`, `Search.Visited` — the state before, during and after a
  visit.
* `Search.connectBelow` — the search through the first positions.
-/

namespace AsnModel

namespace Search

variable {count : ℕ} {edges : ℕ → List ℕ} {s t u : Search} {v w : ℕ}

/-! ## What a visit does not change -/

/-- The number of positions that have not been found. -/
def unfound (count : ℕ) (s : Search) : ℕ :=
  ((Finset.range count).filter fun v => s.index v = none).card

theorem unfound_le (count : ℕ) (s : Search) : s.unfound count ≤ count := by
  simpa [unfound] using Finset.card_filter_le (Finset.range count) fun v => s.index v = none

theorem unfound_pos (hv : s.index v = none) (hcount : v < count) : 0 < s.unfound count :=
  Finset.card_pos.2 ⟨v, by simp [hv, hcount]⟩

/-- Positions found in `s` are what they were, and finished components stay. -/
structure Extends (s t : Search) : Prop where
  index_eq : ∀ {v i}, s.index v = some i → t.index v = some i
  low_eq : ∀ {v i}, s.index v = some i → t.low v = s.low v
  components : s.components <+: t.components

namespace Extends

theorem trans (h : s.Extends t) (h' : t.Extends u) : s.Extends u where
  index_eq hi := h'.index_eq (h.index_eq hi)
  low_eq hi := (h'.low_eq (h.index_eq hi)).trans (h.low_eq hi)
  components := h.components.trans h'.components

theorem discover (hv : s.index v = none) : s.Extends (s.discover v) where
  index_eq {w i} hi := by
    have hw : w ≠ v := by rintro rfl; simp [hv] at hi
    simpa [Search.discover, hw] using hi
  low_eq {w i} hi := by
    have hw : w ≠ v := by rintro rfl; simp [hv] at hi
    simp [Search.discover, hw]
  components := List.prefix_rfl

/-- Lowering a position that was not found in `s`. -/
theorem lower (h : s.Extends t) (hv : s.index v = none) (i : ℕ) : s.Extends (t.lower v i) where
  index_eq := h.index_eq
  low_eq {w j} hj := by
    have hw : w ≠ v := by rintro rfl; simp [hv] at hj
    simpa [Search.lower, hw] using h.low_eq hj
  components := h.components

/-- Of the positions found in `s`, only those on its stack can be on a later stack. -/
theorem mem_stack (h : s.Extends t) (hs : s.Invariant count edges) (ht : t.Invariant count edges)
    (hfound : s.Found w) (hw : w ∈ t.stack) : w ∈ s.stack := by
  refine ((hs.found_iff w).1 hfound).resolve_right fun hmem => ?_
  obtain ⟨later, hlater⟩ := h.components
  have hmem' : w ∈ t.components.flatten := by
    rw [← hlater, List.flatten_append]
    exact List.mem_append_left _ hmem
  exact (List.nodup_append'.1 ht.nodup).2.2 hw hmem'

/-- A later state has fewer positions that are not found. -/
theorem unfound_lt (h : s.Extends t) (hs : s.index v = none) (ht : t.Found v) (hv : v < count) :
    t.unfound count < s.unfound count := by
  refine Finset.card_lt_card (Finset.ssubset_iff_of_subset ?_ |>.2 ⟨v, by simp [hv, hs], ?_⟩)
  · intro w hw
    simp only [Finset.mem_filter] at hw ⊢
    refine ⟨hw.1, Option.eq_none_iff_forall_ne_some.2 fun i hi => ?_⟩
    simp [h.index_eq hi] at hw
  · obtain ⟨i, hi⟩ := ht
    simp [hi]

end Extends

/-! ## Positions that stay on the stack -/

/-- `w` has been found and, if it is on the stack, its index is `l` at least. -/
def Settled (s : Search) (l w : ℕ) : Prop :=
  s.Found w ∧ (w ∈ s.stack → ∀ i, s.index w = some i → l ≤ i)

theorem Settled.mono {l l' : ℕ} (h : s.Settled l w) (hl : l' ≤ l) : s.Settled l' w :=
  ⟨h.1, fun hw i hi => hl.trans (h.2 hw i hi)⟩

theorem Settled.extend {l : ℕ} (h : s.Settled l w) (hst : s.Extends t)
    (hs : s.Invariant count edges) (ht : t.Invariant count edges) : t.Settled l w := by
  obtain ⟨⟨i, hi⟩, hl⟩ := h
  refine ⟨⟨i, hst.index_eq hi⟩, fun hw j hj => ?_⟩
  obtain rfl := Option.some.inj ((hst.index_eq hi).symm.trans hj)
  exact hl (hst.mem_stack hs ht ⟨i, hi⟩ hw) i hi

/-- `x` reaches `v`, and its edges do not lead below the index that `v` is known to reach. -/
def Open (edges : ℕ → List ℕ) (s : Search) (v x : ℕ) : Prop :=
  Reaches edges x v ∧ ∀ w ∈ edges x, s.Settled (s.low v) w

/-! ## During a visit -/

/-- The visit of `v`, begun in `s`, has led to `t` and has followed the edges to `followed`. -/
structure Visiting (count : ℕ) (edges : ℕ → List ℕ) (v : ℕ) (s t : Search)
    (followed : List ℕ) : Prop where
  start : s.Invariant count edges
  inv : t.Invariant count edges
  index_eq_none : s.index v = none
  extend : s.Extends t
  index_self : t.index v = some s.found
  /-- What `v` is known to reach is itself or was on the stack before. -/
  low_self : t.low v = s.found ∨
    ∃ x ∈ s.stack, s.index x = some (t.low v) ∧ Reaches edges v x
  stack : ∃ above, t.stack = above ++ v :: s.stack ∧ ∀ x ∈ above, Open edges t v x
  followed : ∀ w ∈ followed, t.Settled (t.low v) w

namespace Visiting

variable {followed : List ℕ}

theorem low_le (h : Visiting count edges v s t followed) : t.low v ≤ s.found :=
  h.inv.low_le h.index_self

/-- Everything on the stack reaches `v`. -/
theorem reaches_of_mem_stack (h : Visiting count edges v s t followed) :
    ∀ x ∈ t.stack, Reaches edges x v := by
  obtain ⟨above, hstack, habove⟩ := h.stack
  have hbelow := h.inv.stack_reaches
  rw [hstack] at hbelow
  intro x hx
  rw [hstack] at hx
  rcases List.mem_append.1 hx with hx | hx
  · exact (habove x hx).1
  · rcases List.mem_cons.1 hx with rfl | hx
    · exact .refl _
    · exact (List.pairwise_cons.1 (List.pairwise_append.1 hbelow).2.1).1 x hx

/-- A position on the stack with an index below that of `v` was there before. -/
theorem mem_stack_of_index_lt (h : Visiting count edges v s t followed) {x i : ℕ}
    (hx : x ∈ t.stack) (hi : t.index x = some i) (hlt : i < s.found) :
    x ∈ s.stack ∧ s.index x = some i := by
  obtain ⟨above, hstack, -⟩ := h.stack
  have horder := h.inv.stack_index
  rw [hstack] at hx horder
  have hmem : x ∈ s.stack := by
    rcases List.mem_append.1 hx with hx | hx
    · have := (List.pairwise_append.1 horder).2.2 x hx v List.mem_cons_self i s.found hi
        h.index_self
      omega
    · refine (List.mem_cons.1 hx).resolve_left ?_
      rintro rfl
      have := Option.some.inj (hi.symm.trans h.index_self)
      omega
  obtain ⟨j, hj⟩ := h.start.index_isSome hmem
  obtain rfl := Option.some.inj (hi.symm.trans (h.extend.index_eq hj))
  exact ⟨hmem, hj⟩

/-- What `v` is known to reach when another index is taken into account. -/
theorem low_self_min (h : Visiting count edges v s t followed) {l : ℕ}
    (hl : l < t.low v → ∃ x ∈ t.stack, t.index x = some l ∧ Reaches edges v x) :
    min (t.low v) l = s.found ∨
      ∃ x ∈ s.stack, s.index x = some (min (t.low v) l) ∧ Reaches edges v x := by
  rcases Nat.lt_or_ge l (t.low v) with hlt | hge
  · obtain ⟨x, hx, hi, hreach⟩ := hl hlt
    obtain ⟨hmem, hi'⟩ := h.mem_stack_of_index_lt hx hi (hlt.trans_le h.low_le)
    exact .inr ⟨x, hmem, by rwa [Nat.min_eq_right hlt.le], hreach⟩
  · rw [Nat.min_eq_left hge]
    exact h.low_self

theorem discover (hs : s.Invariant count edges) (hv : s.index v = none) (hcount : v < count)
    (hreach : ∀ x ∈ s.stack, Reaches edges x v) :
    Visiting count edges v s (s.discover v) [] where
  start := hs
  inv := hs.discover hv hcount hreach
  index_eq_none := hv
  extend := .discover hv
  index_self := by simp [Search.discover]
  low_self := by simp [Search.discover]
  stack := ⟨[], rfl, by simp⟩
  followed := by simp

/-- An edge to a position on the stack. -/
theorem followOpen (h : Visiting count edges v s t followed) (hw : w ∈ edges v)
    (hstack : w ∈ t.stack) {i : ℕ} (hi : t.index w = some i) :
    Visiting count edges v s (t.lower v i) (followed ++ [w]) := by
  have hlow : (t.lower v i).low v = min (t.low v) i := by simp [Search.lower]
  have hsettled : ∀ {x}, t.Settled (t.low v) x → (t.lower v i).Settled ((t.lower v i).low v) x := by
    intro x hx
    exact hx.mono (hlow ▸ Nat.min_le_left _ _)
  obtain ⟨above, habove, hopen⟩ := h.stack
  exact {
    start := h.start
    inv := h.inv.lower v i
    index_eq_none := h.index_eq_none
    extend := h.extend.lower h.index_eq_none i
    index_self := h.index_self
    low_self := hlow ▸ h.low_self_min fun _ => ⟨w, hstack, hi, (Reaches.refl v).tail hw⟩
    stack := ⟨above, habove, fun x hx =>
      ⟨(hopen x hx).1, fun y hy => hsettled ((hopen x hx).2 y hy)⟩⟩
    followed := by
      intro x hx
      rcases List.mem_append.1 hx with hx | hx
      · exact hsettled (h.followed x hx)
      · obtain rfl := List.mem_singleton.1 hx
        refine ⟨⟨i, hi⟩, fun _ j hj => ?_⟩
        obtain rfl := Option.some.inj (hi.symm.trans hj)
        exact hlow ▸ Nat.min_le_right _ _ }

end Visiting

/-! ## After a visit -/

/-- The visit of `v`, begun in `s`, has ended in `t`. -/
structure Visited (count : ℕ) (edges : ℕ → List ℕ) (v : ℕ) (s t : Search) : Prop where
  inv : t.Invariant count edges
  extend : s.Extends t
  index_self : t.index v = some s.found
  /-- Either the component of `v` is finished, or `v` reaches a position below it on the stack. -/
  stack : t.stack = s.stack ∧ t.low v = s.found ∨
    ∃ above, t.stack = above ++ v :: s.stack ∧ (∀ x ∈ above ++ [v], Open edges t v x) ∧
      ∃ x ∈ s.stack, s.index x = some (t.low v) ∧ Reaches edges v x

/-- What a visit pushes on the stack reaches what was on the stack before. -/
theorem Visited.exists_stack_eq (h : Visited count edges v s t) :
    ∃ pushed, t.stack = pushed ++ s.stack ∧ ∀ x ∈ pushed, Open edges t v x ∧
      ∃ y ∈ s.stack, Reaches edges x y := by
  rcases h.stack with ⟨hstack, -⟩ | ⟨above, hstack, hopen, y, hy, -, hreach⟩
  · exact ⟨[], hstack, by simp⟩
  · refine ⟨above ++ [v], by simpa using hstack, fun x hx => ⟨hopen x hx, y, hy, ?_⟩⟩
    exact (hopen x hx).1.trans hreach

/-! ## Following edges -/

namespace Visiting

variable {followed : List ℕ}

/-- An edge to a position in a finished component. -/
theorem followFinished (h : Visiting count edges v s t followed) (hstack : w ∉ t.stack)
    (hfound : t.Found w) : Visiting count edges v s t (followed ++ [w]) :=
  { h with
    followed := by
      intro x hx
      rcases List.mem_append.1 hx with hx | hx
      · exact h.followed x hx
      · obtain rfl := List.mem_singleton.1 hx
        exact ⟨hfound, fun hmem => absurd hmem hstack⟩ }

/-- An edge to a position that was visited for it. -/
theorem followVisited (h : Visiting count edges v s t followed) (hw : w ∈ edges v)
    (hvisit : Visited count edges w t u) :
    Visiting count edges v s (u.lower v (u.low w)) (followed ++ [w]) := by
  have hlow : (u.lower v (u.low w)).low v = min (t.low v) (u.low w) := by
    simp [Search.lower, hvisit.extend.low_eq h.index_self]
  have hfound : s.found < t.found := h.inv.index_lt h.index_self
  have hsettled : ∀ {x}, t.Settled (t.low v) x →
      (u.lower v (u.low w)).Settled ((u.lower v (u.low w)).low v) x := by
    intro x hx
    exact (hx.extend hvisit.extend h.inv hvisit.inv).mono (hlow ▸ Nat.min_le_left _ _)
  obtain ⟨above, habove, hopen⟩ := h.stack
  obtain ⟨pushed, hpushed, hnew⟩ := hvisit.exists_stack_eq
  constructor
  case start => exact h.start
  case inv => exact hvisit.inv.lower v _
  case index_eq_none => exact h.index_eq_none
  case extend => exact (h.extend.trans hvisit.extend).lower h.index_eq_none _
  case index_self => exact hvisit.extend.index_eq h.index_self
  case low_self =>
    rw [hlow]
    refine h.low_self_min fun hlt => ?_
    rcases hvisit.stack with ⟨-, hlow_w⟩ | ⟨-, -, -, x, hx, hi, hreach⟩
    · -- A component finished in between does not lower `v`, whose index is smaller.
      have := h.low_le
      omega
    · exact ⟨x, hx, hi, .head hw hreach⟩
  case stack =>
    refine ⟨pushed ++ above, by simp [Search.lower, hpushed, habove], fun x hx => ?_⟩
    rcases List.mem_append.1 hx with hx | hx
    · obtain ⟨hx, y, hy, hreach⟩ := hnew x hx
      refine ⟨hreach.trans (h.reaches_of_mem_stack y hy), fun z hz => ?_⟩
      exact (hx.2 z hz).mono (hlow ▸ Nat.min_le_right _ _)
    · exact ⟨(hopen x hx).1, fun y hy => hsettled ((hopen x hx).2 y hy)⟩
  case followed =>
    intro x hx
    rcases List.mem_append.1 hx with hx | hx
    · exact hsettled (h.followed x hx)
    · obtain rfl := List.mem_singleton.1 hx
      refine ⟨⟨_, hvisit.index_self⟩, fun _ i hi => ?_⟩
      obtain rfl := Option.some.inj (hvisit.index_self.symm.trans hi)
      have := h.low_le
      omega

end Visiting

/-! ## Whole visits -/

/-- `visit` does what a visit should do, as long as at most `fuel` positions are not found. -/
def VisitsWithin (count : ℕ) (edges : ℕ → List ℕ) (fuel : ℕ)
    (visit : ℕ → Search → Search) : Prop :=
  ∀ v s, s.Invariant count edges → s.index v = none → v < count →
    (∀ x ∈ s.stack, Reaches edges x v) → s.unfound count ≤ fuel →
      Visited count edges v s (visit v s)

/-- `v` can be visited in `s`, where at most `fuel` positions are not found. -/
structure Enterable (count : ℕ) (edges : ℕ → List ℕ) (fuel : ℕ) (s : Search) (v : ℕ) :
    Prop where
  inv : s.Invariant count edges
  index_eq_none : s.index v = none
  lt_count : v < count
  reaches : ∀ x ∈ s.stack, Reaches edges x v
  unfound_le : s.unfound count ≤ fuel

theorem Enterable.visited {fuel : ℕ} {visit : ℕ → Search → Search}
    (h : Enterable count edges fuel s v) (hvisit : VisitsWithin count edges fuel visit) :
    Visited count edges v s (visit v s) :=
  hvisit v s h.inv h.index_eq_none h.lt_count h.reaches h.unfound_le

theorem Enterable.visiting {fuel : ℕ} (h : Enterable count edges fuel s v) :
    Visiting count edges v s (s.discover v) [] :=
  .discover h.inv h.index_eq_none h.lt_count h.reaches

theorem Enterable.fuel_pos {fuel : ℕ} (h : Enterable count edges fuel s v) : 0 < fuel :=
  (unfound_pos h.index_eq_none h.lt_count).trans_le h.unfound_le

namespace Visiting

variable {followed : List ℕ} {fuel : ℕ} {visit visit' : ℕ → Search → Search}

/-- An edge to a position that has not been found leads to a position that can be visited. -/
theorem enterable (h : Visiting count edges v s t followed) (hv : v < count)
    (hfuel : s.unfound count ≤ fuel + 1) (hw : w ∈ edges v) (hcount : w < count)
    (hnone : t.index w = none) : Enterable count edges fuel t w where
  inv := h.inv
  index_eq_none := hnone
  lt_count := hcount
  reaches x hx := (h.reaches_of_mem_stack x hx).tail hw
  unfound_le := by
    have := h.extend.unfound_lt h.index_eq_none ⟨_, h.index_self⟩ hv
    omega

/-- One edge. -/
theorem follow (h : Visiting count edges v s t followed)
    (hvisit : VisitsWithin count edges fuel visit) (hfuel : t.unfound count ≤ fuel)
    (hw : w ∈ edges v) (hcount : w < count) :
    Visiting count edges v s (Search.follow visit v t w) (followed ++ [w]) := by
  unfold Search.follow
  cases hi : t.index w with
  | none =>
    refine h.followVisited hw (hvisit w t h.inv hi hcount (fun x hx => ?_) hfuel)
    exact (h.reaches_of_mem_stack x hx).tail hw
  | some i =>
    by_cases hon : t.onStack w = true
    · simpa [hon] using h.followOpen hw ((h.inv.onStack_iff w).1 hon) hi
    · simpa [hon] using h.followFinished (mt (h.inv.onStack_iff w).2 hon) ⟨i, hi⟩

/-- All edges of a list, one after the other. -/
theorem foldl_follow (h : Visiting count edges v s t followed)
    (hvisit : VisitsWithin count edges fuel visit) (hv : v < count)
    (hfuel : s.unfound count ≤ fuel + 1) {ws : List ℕ}
    (hws : ∀ w ∈ ws, w ∈ edges v ∧ w < count) :
    Visiting count edges v s (ws.foldl (Search.follow visit v) t) (followed ++ ws) := by
  induction ws generalizing t followed with
  | nil => simpa using h
  | cons w ws ih =>
    obtain ⟨hw, hws⟩ := List.forall_mem_cons.1 hws
    have hlt := h.extend.unfound_lt h.index_eq_none ⟨_, h.index_self⟩ hv
    simpa using ih (h.follow hvisit (by omega) hw.1 hw.2) hws

/-- One edge: visits that are alike lead to the same state. -/
theorem follow_eq (h : Visiting count edges v s t followed)
    (halike : ∀ w u, Enterable count edges fuel u w → visit' w u = visit w u) (hv : v < count)
    (hfuel : s.unfound count ≤ fuel + 1) (hw : w ∈ edges v) (hcount : w < count) :
    Search.follow visit' v t w = Search.follow visit v t w := by
  unfold Search.follow
  cases hi : t.index w with
  | none => simp only [halike w t (h.enterable hv hfuel hw hcount hi)]
  | some i => rfl

/-- All edges of a list: visits that are alike lead to the same state. -/
theorem foldl_follow_congr (h : Visiting count edges v s t followed)
    (hvisit : VisitsWithin count edges fuel visit)
    (halike : ∀ w u, Enterable count edges fuel u w → visit' w u = visit w u) (hv : v < count)
    (hfuel : s.unfound count ≤ fuel + 1) {ws : List ℕ} (hws : ∀ w ∈ ws, w ∈ edges v ∧ w < count) :
    ws.foldl (Search.follow visit' v) t = ws.foldl (Search.follow visit v) t := by
  induction ws generalizing t followed with
  | nil => rfl
  | cons w ws ih =>
    obtain ⟨⟨hw, hcount⟩, hws⟩ := List.forall_mem_cons.1 hws
    have hlt := h.extend.unfound_lt h.index_eq_none ⟨_, h.index_self⟩ hv
    rw [List.foldl_cons, List.foldl_cons, h.follow_eq halike hv hfuel hw hcount]
    exact ih (h.follow hvisit (by omega) hw hcount) hws

/-- Once all edges of `v` are followed, it is itself one of the positions that stay open for it. -/
theorem open_of_mem (h : Visiting count edges v s t followed) (hall : ∀ w ∈ edges v, w ∈ followed)
    {above : List ℕ} (habove : ∀ x ∈ above, Open edges t v x) :
    ∀ x ∈ above ++ [v], Open edges t v x := by
  intro x hx
  rcases List.mem_append.1 hx with hx | hx
  · exact habove x hx
  · obtain rfl := List.mem_singleton.1 hx
    exact ⟨.refl x, fun w hw => h.followed w (hall w hw)⟩

theorem reaches_of_mem_above (h : Visiting count edges v s t followed) {above : List ℕ}
    (hstack : t.stack = above ++ v :: s.stack) : ∀ x ∈ above ++ [v], Reaches edges v x := by
  have hpair := h.inv.stack_reaches
  rw [hstack] at hpair
  intro x hx
  rcases List.mem_append.1 hx with hx | hx
  · exact (List.pairwise_append.1 hpair).2.2 x hx v List.mem_cons_self
  · rw [List.mem_singleton.1 hx]
    exact .refl v

/-- If `v` is not known to reach anything below itself, no edge of an open position leads further
down the stack. -/
theorem closed_of_low_eq (h : Visiting count edges v s t followed) (hlow : t.low v = s.found)
    {above : List ℕ} (hstack : t.stack = above ++ v :: s.stack)
    (hopen : ∀ x ∈ above ++ [v], Open edges t v x) :
    ∀ x ∈ above ++ [v], ∀ w ∈ edges x, w ∈ above ++ [v] ∨ w ∈ t.components.flatten := by
  intro x hx w hw
  obtain ⟨hfound, hindex⟩ := (hopen x hx).2 w hw
  rcases (h.inv.found_iff w).1 hfound with hmem | hmem
  · refine .inl ?_
    have hsplit : w ∈ (above ++ [v]) ++ s.stack := by simpa [hstack] using hmem
    refine (List.mem_append.1 hsplit).resolve_right fun hbelow => ?_
    obtain ⟨i, hi⟩ := h.start.index_isSome hbelow
    have hlt := h.start.index_lt hi
    have hle := hindex hmem i (h.extend.index_eq hi)
    omega
  · exact .inr hmem

/-- Leaving a position all of whose edges have been followed. -/
theorem leave (h : Visiting count edges v s t followed) (hall : ∀ w ∈ edges v, w ∈ followed) :
    Visited count edges v s (t.leave v) := by
  obtain ⟨above, hstack, habove⟩ := h.stack
  have hopen := h.open_of_mem hall habove
  unfold Search.leave
  split_ifs with hroot
  · have hlow : t.low v = s.found := Option.some.inj (hroot.symm.trans h.index_self)
    obtain ⟨hinv, hrest⟩ := h.inv.close hstack
      (fun x hx y hy => (hopen x hx).1.trans (h.reaches_of_mem_above hstack y hy))
      (h.closed_of_low_eq hlow hstack hopen)
    have hclose := close_eq hstack (h.inv.not_mem_above hstack)
    refine ⟨hinv, ?_, ?_, .inl ⟨hrest, ?_⟩⟩
    · rw [hclose]
      exact ⟨h.extend.index_eq, h.extend.low_eq, h.extend.components.trans (List.prefix_append _ _)⟩
    · rw [hclose]
      exact h.index_self
    · rw [hclose]
      exact hlow
  · refine ⟨h.inv, h.extend, h.index_self, .inr ⟨above, hstack, hopen, ?_⟩⟩
    refine h.low_self.resolve_left fun hlow => hroot ?_
    rw [h.index_self, hlow]

end Visiting

/-- The part of the whole search that starts from the positions below `n`. -/
def connectBelow (count : ℕ) (edges : ℕ → List ℕ) (n : ℕ) : Search :=
  (List.range n).foldl
    (fun s v => if s.index v = none then connect edges count v s else s) start

theorem connectAll_eq_connectBelow (count : ℕ) (edges : ℕ → List ℕ) :
    connectAll count edges = connectBelow count edges count := rfl

theorem connectBelow_succ (count : ℕ) (edges : ℕ → List ℕ) (n : ℕ) :
    connectBelow count edges (n + 1) =
      if (connectBelow count edges n).index n = none then
        connect edges count n (connectBelow count edges n)
      else connectBelow count edges n := by
  rw [connectBelow, List.range_succ, List.foldl_append]
  rfl

section Bounded

variable (hedges : ∀ v < count, ∀ w ∈ edges v, w < count)

include hedges

/-- A visit ends with all that can be reached found: each nested visit finds another position, so
that the number of those not found is enough as fuel. -/
theorem visitsWithin_connect (fuel : ℕ) : VisitsWithin count edges fuel (connect edges fuel) := by
  induction fuel with
  | zero =>
    intro v s _ hv hcount _ hfuel
    have hpos := unfound_pos hv hcount
    omega
  | succ fuel ih =>
    intro v s hs hv hcount hreach hfuel
    have hall := (Visiting.discover hs hv hcount hreach).foldl_follow ih hcount hfuel
      fun w hw => ⟨hw, hedges v hcount w hw⟩
    exact hall.leave (by simp)

/-- Between two visits from the outside, the stack is empty. -/
theorem invariant_connectBelow {n : ℕ} (hn : n ≤ count) :
    (connectBelow count edges n).Invariant count edges ∧ (connectBelow count edges n).stack = [] ∧
      ∀ v < n, (connectBelow count edges n).Found v := by
  induction n with
  | zero => exact ⟨.start, rfl, by simp⟩
  | succ n ih =>
    obtain ⟨hinv, hstack, hfound⟩ := ih (by omega)
    rw [connectBelow_succ]
    generalize connectBelow count edges n = s at *
    have hstep : ∀ t : Search, s.Extends t → t.Found n → ∀ v < n + 1, t.Found v := by
      intro t hext hn v hv
      rcases Nat.lt_succ_iff_lt_or_eq.1 hv with hv | rfl
      · obtain ⟨i, hi⟩ := hfound v hv
        exact ⟨i, hext.index_eq hi⟩
      · exact hn
    split_ifs with hnone
    · have hvisit := visitsWithin_connect hedges count n s hinv hnone hn (by simp [hstack])
        (s.unfound_le count)
      refine ⟨hvisit.inv, ?_, hstep _ hvisit.extend ⟨_, hvisit.index_self⟩⟩
      obtain ⟨pushed, hpushed, hnew⟩ := hvisit.exists_stack_eq
      rw [hpushed, hstack, List.append_nil]
      refine List.eq_nil_iff_forall_not_mem.2 fun x hx => ?_
      obtain ⟨-, y, hy, -⟩ := hnew x hx
      simp [hstack] at hy
    · obtain ⟨i, hi⟩ := Option.ne_none_iff_exists'.1 hnone
      exact ⟨hinv, hstack, hstep s ⟨id, fun _ => rfl, List.prefix_rfl⟩ ⟨i, hi⟩⟩

/-- A position that is still to be visited from the outside can be visited. -/
theorem enterable_connectBelow {n : ℕ} (hn : n < count)
    (hnone : (connectBelow count edges n).index n = none) :
    Enterable count edges count (connectBelow count edges n) n := by
  obtain ⟨hinv, hstack, -⟩ := invariant_connectBelow hedges hn.le
  exact ⟨hinv, hnone, hn, by simp [hstack], unfound_le count _⟩

end Bounded

end Search

/-- The components are layered, and every position is in one of them, once. -/
theorem layered_strongComponents {count : ℕ} {edges : ℕ → List ℕ}
    (hedges : ∀ v < count, ∀ w ∈ edges v, w < count) :
    Layered edges (strongComponents count edges) ∧
      (strongComponents count edges).flatten.Perm (List.range count) := by
  obtain ⟨hinv, hstack, hfound⟩ := Search.invariant_connectBelow hedges (Nat.le_refl count)
  rw [← Search.connectAll_eq_connectBelow] at hinv hstack hfound
  have hmem := hinv.found_iff
  have hnodup := hinv.nodup
  simp only [hstack, List.not_mem_nil, false_or, List.nil_append] at hmem hnodup
  refine ⟨hinv.layered, (List.perm_ext_iff_of_nodup hnodup List.nodup_range).2 fun v => ?_⟩
  rw [← hmem, List.mem_range]
  exact ⟨fun ⟨i, hi⟩ => hinv.lt_count hi, hfound v⟩

end AsnModel
