import AsnModel.Proofs.Dependency.Layered
import Mathlib.Data.List.Perm.Basic

/-!
# Plain depth-first search

A plain depth-first search goes through a list of positions and visits those that it has not
discovered yet. A visit discovers the position, goes through its edges and finishes it. The search
keeps no stack of its own and knows nothing of components: all that it leaves behind is in which
order positions were discovered and in which order they were finished.

## Main definitions

* `Traversal` — what a depth-first search has discovered and finished.
* `Traverses` — the search, as a relation between the states before and after it.
-/

namespace AsnModel

/-- What has the rank of a member may stand in front of it. -/
theorem pairwise_rank_insert {β : Type*} {rank : β → ℕ} {l l' m : List β} {b : β}
    (h : (l ++ b :: l').Pairwise fun x y => rank x ≤ rank y) (hm : ∀ x ∈ m, rank x = rank b) :
    (l ++ (m ++ b :: l')).Pairwise fun x y => rank x ≤ rank y := by
  obtain ⟨hbefore, hbehind, hcross⟩ := List.pairwise_append.1 h
  have hnext := (List.pairwise_cons.1 hbehind).1
  refine List.pairwise_append.2 ⟨hbefore, List.pairwise_append.2 ⟨?_, hbehind, ?_⟩, ?_⟩
  · exact List.pairwise_of_forall_mem_list fun x hx y hy =>
      Nat.le_of_eq ((hm x hx).trans (hm y hy).symm)
  · intro x hx y hy
    rw [hm x hx]
    exact (List.mem_cons.1 hy).elim (fun heq => heq ▸ Nat.le_refl _) (hnext y)
  · intro x hx y hy
    rcases List.mem_append.1 hy with hy | hy
    · rw [hm y hy]
      exact hcross x hx b List.mem_cons_self
    · exact hcross x hx y hy

/-- What a depth-first search has done so far. -/
structure Traversal where
  /-- The positions that have been discovered, in the order of discovery. -/
  discovered : List ℕ
  /-- The positions whose visit has ended, in the order of ending. -/
  finished : List ℕ

namespace Traversal

/-- Before any position is discovered. -/
def start : Traversal := ⟨[], []⟩

/-- The visit of `v` begins. -/
def discover (s : Traversal) (v : ℕ) : Traversal := { s with discovered := s.discovered ++ [v] }

/-- The visit of `v` ends. -/
def finish (s : Traversal) (v : ℕ) : Traversal := { s with finished := s.finished ++ [v] }

end Traversal

/-- Going through the listed positions in order leads from one state to the other. A position that
has been discovered is skipped, and any other one is visited. -/
inductive Traverses (edges : ℕ → List ℕ) : List ℕ → Traversal → Traversal → Prop
  | nil (s : Traversal) : Traverses edges [] s s
  | skip {v : ℕ} {vs : List ℕ} {s t : Traversal} (known : v ∈ s.discovered)
      (rest : Traverses edges vs s t) : Traverses edges (v :: vs) s t
  | visit {v : ℕ} {vs : List ℕ} {s t u : Traversal} (new : v ∉ s.discovered)
      (below : Traverses edges (edges v) (s.discover v) t)
      (rest : Traverses edges vs (t.finish v) u) : Traverses edges (v :: vs) s u

namespace Traverses

variable {edges : ℕ → List ℕ} {vs ws : List ℕ} {s t u : Traversal}

theorem append (h : Traverses edges vs s t) (h' : Traverses edges ws t u) :
    Traverses edges (vs ++ ws) s u := by
  induction h with
  | nil s => exact h'
  | skip known _ ih => exact .skip known (ih h')
  | visit new below _ _ ih => exact .visit new below (ih h')

/-- The search is deterministic. -/
theorem unique (h : Traverses edges vs s t) (h' : Traverses edges vs s u) : t = u := by
  induction h generalizing u with
  | nil s =>
    cases h'
    rfl
  | skip known _ ih =>
    cases h' with
    | skip _ rest' => exact ih rest'
    | visit new' _ _ => exact absurd known new'
  | visit new _ _ ihBelow ihRest =>
    cases h' with
    | skip known' _ => exact absurd known' new
    | visit _ below' rest' =>
      obtain rfl := ihBelow below'
      exact ihRest rest'

/-- What is discovered on the way is new and can be reached from the listed positions, and all of it
is finished at the end. -/
theorem exists_found (h : Traverses edges vs s t) :
    ∃ found ended, t.discovered = s.discovered ++ found ∧ t.finished = s.finished ++ ended ∧
      ended.Perm found ∧ ∀ x ∈ found, x ∉ s.discovered ∧ ∃ v ∈ vs, Reaches edges v x := by
  induction h with
  | nil s => exact ⟨[], [], by simp⟩
  | skip _ _ ih =>
    obtain ⟨found, ended, hfound, hended, hperm, hnew⟩ := ih
    refine ⟨found, ended, hfound, hended, hperm, fun x hx => ?_⟩
    obtain ⟨hx, w, hw, hpath⟩ := hnew x hx
    exact ⟨hx, w, List.mem_cons_of_mem _ hw, hpath⟩
  | @visit v vs s t u new _ _ ihBelow ihRest =>
    obtain ⟨below, endedBelow, hbelow, hendedBelow, hpermBelow, hnewBelow⟩ := ihBelow
    obtain ⟨rest, endedRest, hrest, hendedRest, hpermRest, hnewRest⟩ := ihRest
    simp only [Traversal.discover, Traversal.finish] at *
    refine ⟨v :: (below ++ rest), endedBelow ++ v :: endedRest, by simp [hrest, hbelow],
      by simp [hendedRest, hendedBelow], ?_, ?_⟩
    · exact List.perm_middle.trans ((hpermBelow.append hpermRest).cons v)
    · intro x hx
      rcases List.mem_cons.1 hx with rfl | hx
      · exact ⟨new, x, List.mem_cons_self, .refl x⟩
      rcases List.mem_append.1 hx with hx | hx
      · obtain ⟨hx, w, hw, hpath⟩ := hnewBelow x hx
        exact ⟨fun hmem => hx (List.mem_append_left _ hmem), v, List.mem_cons_self, .head hw hpath⟩
      · obtain ⟨hx, w, hw, hpath⟩ := hnewRest x hx
        rw [hbelow, List.append_assoc] at hx
        exact ⟨fun hmem => hx (List.mem_append_left _ hmem), w, List.mem_cons_of_mem _ hw, hpath⟩

/-- Nothing is discovered twice. -/
theorem nodup_discovered (h : Traverses edges vs s t) (hs : s.discovered.Nodup) :
    t.discovered.Nodup := by
  induction h with
  | nil s => exact hs
  | skip _ _ ih => exact ih hs
  | visit new _ _ ihBelow ihRest =>
    refine ihRest (ihBelow ?_)
    simpa [Traversal.discover] using hs.concat new

/-- From the start on, what is discovered and what is finished are the same positions. -/
theorem perm_finished (h : Traverses edges vs .start t) : t.finished.Perm t.discovered := by
  obtain ⟨found, ended, hfound, hended, hperm, -⟩ := h.exists_found
  rw [hfound, hended]
  exact hperm

/-- If paths never lead to a higher rank, and the positions to go through stand in the order of rank
and are all that there are, then positions are finished in the order of rank. -/
theorem pairwise_rank_finished {rank : ℕ → ℕ} (h : Traverses edges vs s t)
    (hpath : ∀ v w, Reaches edges v w → rank w ≤ rank v)
    (hall : ∀ x ∈ t.discovered, x ∈ s.discovered ∨ x ∈ vs)
    (hrank : (s.finished ++ vs).Pairwise fun x y => rank x ≤ rank y) :
    t.finished.Pairwise fun x y => rank x ≤ rank y := by
  induction h with
  | nil s => simpa using hrank
  | @skip v vs s t known rest ih =>
    refine ih (fun x hx => ?_) (hrank.sublist ((List.sublist_cons_self _ _).append_left _))
    rcases hall x hx with hx | hx
    · exact .inl hx
    · exact (List.mem_cons.1 hx).imp (fun heq => by rwa [heq]) id
  | @visit v vs s t u _ below rest _ ih =>
    obtain ⟨found, ended, hfound, hended, hperm, hnew⟩ := below.exists_found
    obtain ⟨later, -, hlater, -⟩ := rest.exists_found
    simp only [Traversal.discover, Traversal.finish] at hfound hended hlater hnew
    have hnext := (List.pairwise_cons.1 (List.pairwise_append.1 hrank).2.1).1
    -- What is found below `v` is reached from it, but was still to come in the list.
    have hsame : ∀ x ∈ ended, rank x = rank v := by
      intro x hx
      have hx := hperm.mem_iff.1 hx
      obtain ⟨hxs, w, hw, hwx⟩ := hnew x hx
      rw [List.mem_append, List.mem_singleton, not_or] at hxs
      have hxu : x ∈ u.discovered := by simp [hlater, hfound, hx]
      have hxvs := (List.mem_cons.1 ((hall x hxu).resolve_left hxs.1)).resolve_left hxs.2
      exact Nat.le_antisymm (hpath v x (.head hw hwx)) (hnext x hxvs)
    refine ih (fun x hx => ?_) ?_
    · rcases hall x hx with hx | hx
      · exact .inl (by simp [Traversal.finish, hfound, hx])
      · exact (List.mem_cons.1 hx).imp (fun heq => by simp [Traversal.finish, hfound, heq]) id
    · simpa [Traversal.finish, hended] using pairwise_rank_insert hrank hsame

end Traverses

end AsnModel
