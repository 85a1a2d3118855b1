import AsnModel.Proofs.Dependency.Visit

/-!
# The stack of the search for components

The search begins a visit from the outside, or inside of another visit when an edge leads to a
position that has not been found. Whenever a visit begins or ends, the stack holds the positions
whose component is open, in the order of their indices. A visit leaves its position on the stack,
with others above it, only if each of them reaches what was there before. Popping a component comes
to the position at which it was entered. Each visit finds another position, so that visits end.

## Main definitions

* `Search.partway` — the state within a visit that has followed some of its edges.
* `Search.Begins` — the visits that the search begins.
* `Search.StackInvariant` — what holds whenever a visit begins or ends.
* `Search.LeavesStack` — what a visit leaves on the stack.
* `Search.ComesToEnd` — what brings a visit to its end.
-/

namespace AsnModel

namespace Search

variable {count fuel : ℕ} {edges : ℕ → List ℕ} {s t : Search} {v w : ℕ}

/-! ## The visits of a search -/

/-- The state within the visit of `v`, begun in `s`, when the edges to `followed` have been
followed and each visit inside of it has had `fuel`. -/
def partway (edges : ℕ → List ℕ) (fuel v : ℕ) (s : Search) (followed : List ℕ) : Search :=
  followed.foldl (follow (connect edges fuel) v) (s.discover v)

theorem connect_succ (edges : ℕ → List ℕ) (fuel v : ℕ) (s : Search) :
    connect edges (fuel + 1) v s = (partway edges fuel v s (edges v)).leave v := rfl

theorem partway_concat (edges : ℕ → List ℕ) (fuel v : ℕ) (s : Search) (followed : List ℕ) (w : ℕ) :
    partway edges fuel v s (followed ++ [w]) =
      follow (connect edges fuel) v (partway edges fuel v s followed) w := by
  rw [partway, List.foldl_concat, partway]

/-- The visit of `v`, begun in `s`, has come to the state `t`, and the next edge leads to `w`, which
has not been found. -/
def BeginsInside (edges : ℕ → List ℕ) (fuel v : ℕ) (s : Search) (w : ℕ) (t : Search) : Prop :=
  ∃ followed pending, edges v = followed ++ w :: pending ∧ t = partway edges fuel v s followed ∧
    t.index w = none

/-- In the search among the positions below `count`, the visit of a position begins in a state, with
some fuel. -/
inductive Begins (count : ℕ) (edges : ℕ → List ℕ) : ℕ → ℕ → Search → Prop
  | outside {n : ℕ} : n < count → (connectBelow count edges n).index n = none →
      Begins count edges count n (connectBelow count edges n)
  | inside {fuel v w : ℕ} {s t : Search} : Begins count edges (fuel + 1) v s →
      BeginsInside edges fuel v s w t → Begins count edges fuel w t

section Bounded

variable (hedges : ∀ v < count, ∀ w ∈ edges v, w < count)

include hedges

theorem Enterable.visiting_partway (h : Enterable count edges (fuel + 1) s v) {followed : List ℕ}
    (hfollowed : ∀ w ∈ followed, w ∈ edges v) :
    Visiting count edges v s (partway edges fuel v s followed) followed :=
  h.visiting.foldl_follow (visitsWithin_connect hedges fuel) h.lt_count h.unfound_le fun w hw =>
    ⟨hfollowed w hw, hedges v h.lt_count w (hfollowed w hw)⟩

theorem BeginsInside.visiting (hinside : BeginsInside edges fuel v s w t)
    (h : Enterable count edges (fuel + 1) s v) :
    ∃ followed, Visiting count edges v s t followed := by
  obtain ⟨followed, pending, hsplit, rfl, -⟩ := hinside
  exact ⟨followed, h.visiting_partway hedges fun x hx => by simp [hsplit, hx]⟩

theorem BeginsInside.enterable (hinside : BeginsInside edges fuel v s w t)
    (h : Enterable count edges (fuel + 1) s v) : Enterable count edges fuel t w := by
  obtain ⟨followed, hvisiting⟩ := hinside.visiting hedges h
  obtain ⟨_, pending, hsplit, -, hnone⟩ := hinside
  have hw : w ∈ edges v := by simp [hsplit]
  exact hvisiting.enterable h.lt_count h.unfound_le hw (hedges v h.lt_count w hw) hnone

/-- Every visit of the search begins where it can. -/
theorem Begins.enterable (h : Begins count edges fuel v s) : Enterable count edges fuel s v := by
  induction h with
  | outside hn hnone => exact enterable_connectBelow hedges hn hnone
  | inside _ hinside ih => exact hinside.enterable hedges ih

end Bounded

/-! ## Positions and their visits -/

/-- The search begins a visit of each position that has been found. -/
def Accounted (count : ℕ) (edges : ℕ → List ℕ) (s : Search) : Prop :=
  ∀ x, s.Found x → ∃ fuel u, Begins count edges fuel x u

theorem Accounted.of_index_eq (h : Accounted count edges s) (hindex : t.index = s.index) :
    Accounted count edges t := fun x ⟨i, hi⟩ => h x ⟨i, hindex ▸ hi⟩

theorem Accounted.discover (h : Accounted count edges s) (hv : Begins count edges fuel v s) :
    Accounted count edges (s.discover v) := by
  rintro x ⟨i, hi⟩
  by_cases hx : x = v
  · exact hx ▸ ⟨fuel, s, hv⟩
  · exact h x ⟨i, by simpa [Search.discover, hx] using hi⟩

theorem index_leave (s : Search) (v : ℕ) : (s.leave v).index = s.index := by
  unfold Search.leave
  split_ifs <;> rfl

/-- One edge, whose target is found by its own visit. -/
theorem Accounted.follow {visit : ℕ → Search → Search} (h : Accounted count edges t)
    (hvisit : t.index w = none → Accounted count edges (visit w t)) :
    Accounted count edges (Search.follow visit v t w) := by
  unfold Search.follow
  cases hi : t.index w with
  | none => exact (hvisit hi).of_index_eq rfl
  | some i =>
    dsimp only
    split_ifs
    · exact h.of_index_eq rfl
    · exact h

/-- What a visit finds is itself and what the visits inside of it find. -/
theorem Begins.accounted (h : Begins count edges fuel v s) (hs : Accounted count edges s) :
    Accounted count edges (connect edges fuel v s) := by
  induction fuel generalizing v s with
  | zero => exact hs
  | succ fuel ih =>
    have hpartway : ∀ followed pending, edges v = followed ++ pending →
        Accounted count edges (partway edges fuel v s followed) := by
      intro followed
      induction followed using List.reverseRecOn with
      | nil => exact fun _ _ => hs.discover h
      | append_singleton followed w ihw =>
        intro pending hsplit
        rw [List.append_assoc, List.singleton_append] at hsplit
        have hbefore := ihw _ hsplit
        rw [partway_concat]
        exact hbefore.follow fun hnone =>
          ih (.inside h ⟨followed, pending, hsplit, rfl, hnone⟩) hbefore
    rw [connect_succ]
    exact (hpartway _ [] (by simp)).of_index_eq (index_leave _ v)

theorem accounted_connectBelow {n : ℕ} (hn : n ≤ count) :
    Accounted count edges (connectBelow count edges n) := by
  induction n with
  | zero =>
    rintro x ⟨i, hi⟩
    simp [connectBelow, start] at hi
  | succ n ih =>
    rw [connectBelow_succ]
    split_ifs with hnone
    · exact (Begins.outside hn hnone).accounted (ih (by omega))
    · exact ih (by omega)

/-! ## The stack -/

/-- What holds whenever a visit begins or ends. -/
structure StackInvariant (count : ℕ) (s : Search) : Prop where
  onStack_iff : ∀ v, s.onStack v = true ↔ v ∈ s.stack
  nodup_stack : s.stack.Nodup
  /-- Indices increase from the bottom of the stack to its top. -/
  increasing : s.stack.reverse.Pairwise fun v w =>
    ∃ i j, s.index v = some i ∧ s.index w = some j ∧ i < j
  stack_or_component : ∀ v, s.Found v →
    (v ∈ s.stack ∧ ∀ c ∈ s.components, v ∉ c) ∨
      (v ∉ s.stack ∧ ∃! k, ∃ hk : k < s.components.length, v ∈ s.components[k])
  not_mem : ∀ v, ¬ s.Found v → v ∉ s.stack ∧ ∀ c ∈ s.components, v ∉ c
  low_le : ∀ v i, s.index v = some i → s.low v ≤ i
  lt_count : ∀ v, s.Found v → v < count

theorem Invariant.stackInvariant (h : Invariant count edges s) : StackInvariant count s := by
  obtain ⟨hstack, hcomponents, hdisjoint⟩ := List.nodup_append'.1 h.nodup
  have hmem : ∀ v, v ∉ s.components.flatten ↔ ∀ c ∈ s.components, v ∉ c := by
    simp [List.mem_flatten]
  constructor
  case onStack_iff => exact h.onStack_iff
  case nodup_stack => exact hstack
  case increasing =>
    refine List.pairwise_reverse.2 (h.stack_index.imp_of_mem fun hv hw hlt => ?_)
    obtain ⟨i, hi⟩ := h.index_isSome hv
    obtain ⟨j, hj⟩ := h.index_isSome hw
    exact ⟨j, i, hj, hi, hlt i j hi hj⟩
  case stack_or_component =>
    intro v hv
    rcases (h.found_iff v).1 hv with hv | hv
    · exact .inl ⟨hv, (hmem v).1 (hdisjoint hv)⟩
    · refine .inr ⟨fun hv' => hdisjoint hv' hv, ?_⟩
      obtain ⟨c, hc, hvc⟩ := List.mem_flatten.1 hv
      obtain ⟨k, hk, rfl⟩ := List.getElem_of_mem hc
      exact ⟨k, ⟨hk, hvc⟩, fun l ⟨hl, hvl⟩ => Layered.eq_of_mem_of_mem hcomponents hl hk hvl hvc⟩
  case not_mem =>
    intro v hv
    rw [h.found_iff, not_or] at hv
    exact ⟨hv.1, (hmem v).1 hv.2⟩
  case low_le => exact fun v i hi => h.low_le hi
  case lt_count => exact fun v ⟨i, hi⟩ => h.lt_count hi

/-- The visit of `v`, begun in `s`, has ended in `t`. If `v` is not known to reach anything below
itself, the stack is what it was. Otherwise `v` and positions found after it stand on what was the
stack, and each of them reaches a position there. -/
def LeavesStack (edges : ℕ → List ℕ) (v : ℕ) (s t : Search) : Prop :=
  ∃ i, t.index v = some i ∧
    ((t.low v = i ∧ t.stack = s.stack) ∨
      (t.low v < i ∧ ∃ above, t.stack = above ++ v :: s.stack ∧
        ∀ x ∈ above ++ [v], s.index x = none ∧ t.Found x ∧ ∃ y ∈ s.stack, Reaches edges x y))

/-- What stands above the old stack was not found before. -/
theorem Visited.index_eq_none (h : Visited count edges v s t) (hs : s.Invariant count edges)
    {pushed : List ℕ} (hstack : t.stack = pushed ++ s.stack) {x : ℕ} (hx : x ∈ pushed) :
    s.index x = none := by
  by_contra hne
  obtain ⟨i, hi⟩ := Option.ne_none_iff_exists'.1 hne
  have hmem : x ∈ t.stack := hstack ▸ List.mem_append_left _ hx
  have hold : x ∈ s.stack := h.extend.mem_stack hs h.inv ⟨i, hi⟩ hmem
  have hnodup := (List.nodup_append'.1 h.inv.nodup).1
  rw [hstack] at hnodup
  exact (List.nodup_append'.1 hnodup).2.2 hx hold

theorem Visited.leavesStack (h : Visited count edges v s t) (hs : s.Invariant count edges) :
    LeavesStack edges v s t := by
  refine ⟨s.found, h.index_self, ?_⟩
  rcases h.stack with ⟨hstack, hlow⟩ | ⟨above, hstack, hopen, y, hy, hi, hreach⟩
  · exact .inl ⟨hlow, hstack⟩
  · have hpushed : t.stack = (above ++ [v]) ++ s.stack := by simpa using hstack
    refine .inr ⟨hs.index_lt hi, above, hstack, fun x hx => ⟨h.index_eq_none hs hpushed hx, ?_, ?_⟩⟩
    · exact h.inv.index_isSome (hpushed ▸ List.mem_append_left _ hx)
    · exact ⟨y, hy, (hopen x hx).1.trans hreach⟩

/-! ## The end of a visit -/

/-- What brings the visit of `v`, begun in `s`, to its end. The visits inside of it have `fuel`. -/
structure ComesToEnd (count : ℕ) (edges : ℕ → List ℕ) (fuel v : ℕ) (s : Search) : Prop where
  /-- The visit finds a position. -/
  index_eq_none : s.index v = none
  /-- When a visit begins inside of it, fewer positions are not found. -/
  unfound_lt : ∀ w t, BeginsInside edges fuel v s w t →
    t.Found v ∧ t.unfound count < s.unfound count
  /-- The fuel does not run out: with more of it, the visit is the same. -/
  connect_eq : ∀ more, connect edges (fuel + 1 + more) v s = connect edges (fuel + 1) v s
  /-- Popping comes to `v`, with no position of the old stack above it. -/
  popThrough_eq : ∃ above, v ∉ above ∧
    popThrough v (partway edges fuel v s (edges v)).stack = (above ++ [v], s.stack)
  /-- All positions that it looks at are below `count`: itself, the targets of its edges, and those
  that are popped. -/
  lt_count : ∀ x ∈ v :: edges v ++ (popThrough v (partway edges fuel v s (edges v)).stack).1,
    x < count

section Bounded

variable (hedges : ∀ v < count, ∀ w ∈ edges v, w < count)

include hedges

/-- The fuel that a visit needs is the number of positions that are not found. -/
theorem connect_add (fuel more : ℕ) : ∀ v s, Enterable count edges fuel s v →
    connect edges (fuel + more) v s = connect edges fuel v s := by
  induction fuel with
  | zero => exact fun v s h => absurd h.fuel_pos (Nat.lt_irrefl 0)
  | succ fuel ih =>
    intro v s h
    have hfold := h.visiting.foldl_follow_congr (visitsWithin_connect hedges fuel) ih h.lt_count
      h.unfound_le fun w hw => ⟨hw, hedges v h.lt_count w hw⟩
    rw [Nat.succ_add, connect, connect, hfold]

theorem Enterable.comesToEnd (h : Enterable count edges (fuel + 1) s v) :
    ComesToEnd count edges fuel v s := by
  have hall := h.visiting_partway hedges fun _ hw => hw
  obtain ⟨above, hstack, -⟩ := hall.stack
  have hv := hall.inv.not_mem_above hstack
  have hpop : popThrough v (partway edges fuel v s (edges v)).stack = (above ++ [v], s.stack) := by
    rw [hstack, popThrough_append hv]
  constructor
  case index_eq_none => exact h.index_eq_none
  case unfound_lt =>
    intro w t hinside
    obtain ⟨followed, hvisiting⟩ := hinside.visiting hedges h
    have hfound : t.Found v := ⟨_, hvisiting.index_self⟩
    exact ⟨hfound, hvisiting.extend.unfound_lt h.index_eq_none hfound h.lt_count⟩
  case connect_eq => exact fun more => connect_add hedges (fuel + 1) more v s h
  case popThrough_eq => exact ⟨above, hv, hpop⟩
  case lt_count =>
    intro x hx
    rw [hpop] at hx
    rcases List.mem_append.1 hx with hx | hx
    · rcases List.mem_cons.1 hx with rfl | hx
      · exact h.lt_count
      · exact hedges v h.lt_count x hx
    · have hmem : x ∈ (partway edges fuel v s (edges v)).stack := by
        rw [hstack, List.append_cons]
        exact List.mem_append_left _ hx
      obtain ⟨i, hi⟩ := hall.inv.index_isSome hmem
      exact hall.inv.lt_count hi

end Bounded

end Search

open Search

/-- The search begins a visit of every position. Whenever a visit begins or ends, the positions that
are marked are those on the stack, where each stands once, in the order of the indices. A position
that has been found is either on the stack or in one component, and is known to reach an index that
is not above its own. A visit leaves its position on the stack only if it reaches what stood there
before. It finds a position, and so do the visits inside of it, so that it comes to an end. -/
theorem strongComponents_stack {count : ℕ} {edges : ℕ → List ℕ}
    (hedges : ∀ v < count, ∀ w ∈ edges v, w < count) :
    (∀ v < count, ∃ fuel s, Begins count edges fuel v s) ∧
    ∀ fuel v s, Begins count edges fuel v s →
      StackInvariant count s ∧ StackInvariant count (connect edges fuel v s) ∧
      LeavesStack edges v s (connect edges fuel v s) ∧
      ∃ inside, fuel = inside + 1 ∧ ComesToEnd count edges inside v s := by
  obtain ⟨-, -, hfound⟩ := invariant_connectBelow hedges (Nat.le_refl count)
  refine ⟨fun v hv => accounted_connectBelow (Nat.le_refl count) v (hfound v hv), ?_⟩
  intro fuel v s hbegins
  have h := hbegins.enterable hedges
  have hvisited := h.visited (visitsWithin_connect hedges fuel)
  refine ⟨h.inv.stackInvariant, hvisited.inv.stackInvariant, hvisited.leavesStack h.inv, ?_⟩
  obtain ⟨inside, rfl⟩ := Nat.exists_eq_add_one.2 h.fuel_pos
  exact ⟨inside, rfl, h.comesToEnd hedges⟩

/-- A visit inside of another one, with an edge from the position to itself, an edge to a component
that is finished meanwhile, and another one to it when it is finished. -/
theorem strongComponents_stack_finished_target :
    let edges : ℕ → List ℕ := fun v => [[1], [1, 2, 3], [], [2, 0]].getD v []
    let s := Search.start.discover 0
    let t := connect edges 3 1 s
    (∀ v < 4, ∀ w ∈ edges v, w < 4) ∧ Begins 4 edges 3 1 s ∧
      t.stack = [3, 1, 0] ∧ t.components = [[2]] ∧ t.low 1 = 0 ∧
      StackInvariant 4 s ∧ StackInvariant 4 t ∧ Reaches edges 3 0 ∧ ComesToEnd 4 edges 2 1 s := by
  intro edges s t
  have hedges : ∀ v < 4, ∀ w ∈ edges v, w < 4 := by decide
  have houtside : Begins 4 edges 4 0 Search.start := .outside (by decide) rfl
  have hbegins : Begins 4 edges 3 1 s := .inside houtside ⟨[], [], rfl, rfl, rfl⟩
  have hstack : t.stack = [3, 1, 0] := rfl
  obtain ⟨hs, ht, ⟨i, -, hleaves⟩, inside, hinside, hend⟩ :=
    (strongComponents_stack hedges).2 3 1 s hbegins
  obtain rfl : inside = 2 := by omega
  refine ⟨hedges, hbegins, hstack, rfl, rfl, hs, ht, ?_, hend⟩
  rcases hleaves with ⟨-, hsame⟩ | ⟨-, above, habove, hpushed⟩
  · exact absurd (hstack.symm.trans hsame) (by decide)
  · have hsplit : [3] ++ 1 :: s.stack = above ++ 1 :: s.stack := hstack.symm.trans habove
    obtain rfl : [3] = above := List.append_cancel_right hsplit
    obtain ⟨-, -, y, hy, hreach⟩ := hpushed 3 (by simp)
    exact List.mem_singleton.1 hy ▸ hreach

end AsnModel
