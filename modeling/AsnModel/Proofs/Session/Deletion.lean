import AsnModel.Proofs.Session.History
import Mathlib.Logic.Function.Basic

/-!
# Sequences do not influence each other

What happens on some of the sequences of a session also happens without the steps that act on the
others. The sequences that are left are made in the same order, but are counted anew.

## Main definitions

* `Session.WellFormed` — slots refer to sequences that have been made.
* `Session.Follows` — a session without the steps on some sequences.
-/

namespace AsnModel

namespace Session

variable {s s' t : Session} {e : Event} {id : String} {q : SequenceId} {b : Builder}

/-! ## Sequences that have been made -/

/-- Slots refer to sequences that have been made, and nothing has been drawn from any other one. -/
structure WellFormed (s : Session) : Prop where
  shared : sharedSequence < s.sequences
  counters : ∀ id q, s.counters.get? id = some q → q < s.sequences
  builders : ∀ id b, s.builders.get? id = some b → b.sequence < s.sequences
  fresh : ∀ q, s.sequences ≤ q → s.drawn q = 0

namespace WellFormed

theorem start : Session.start.WellFormed where
  shared := Nat.one_pos
  counters _ _ h := nomatch h
  builders _ _ h := nomatch h
  fresh _ _ := rfl

theorem insertCounter (h : s.WellFormed) (hq : q < s.sequences) (id : String) :
    WellFormed { s with counters := s.counters.insert id q } := { h with
  counters := by
    intro id' q'
    rw [OrderedMap.get?_insert]
    split
    · rintro ⟨⟩
      exact hq
    · exact h.counters id' q' }

theorem insertBuilder {o : BuildOptions} (h : s.WellFormed) (hq : q < s.sequences) (id : String) :
    WellFormed { s with builders := s.builders.insert id ⟨o, q⟩ } := { h with
  builders := by
    intro id' b'
    rw [OrderedMap.get?_insert]
    split
    · rintro ⟨⟩
      exact hq
    · exact h.builders id' b' }

theorem setDrawn (h : s.WellFormed) (hq : q < s.sequences) (count : Nat) :
    (s.setDrawn q count).WellFormed := { h with
  fresh := by
    intro q' hq'
    have hne : q' ≠ q := Nat.ne_of_gt (Nat.lt_of_lt_of_le hq hq')
    rw [drawn_setDrawn, if_neg hne, h.fresh q' hq'] }

theorem newSequence (h : s.WellFormed) : WellFormed { s with sequences := s.sequences + 1 } where
  shared := Nat.lt_succ_of_lt h.shared
  counters id q hid := Nat.lt_succ_of_lt (h.counters id q hid)
  builders id b hid := Nat.lt_succ_of_lt (h.builders id b hid)
  fresh q hq := h.fresh q (Nat.le_of_succ_le hq)

end WellFormed

theorem Happens.wellFormed (h : s.Happens e s') (hs : s.WellFormed) : s'.WellFormed := by
  cases h with
  | newCounter id => exact hs.newSequence.insertCounter (Nat.lt_succ_self _) id
  | copyCounter id h => exact hs.insertCounter (hs.counters _ _ h) id
  | draw h | drawName _ h => exact hs.setDrawn (hs.counters _ _ h) _
  | newBuilder id h => exact hs.insertBuilder (hs.counters _ _ h) id
  | copyBuilder id h => exact hs.insertBuilder (hs.builders _ _ h) id
  | configure _ _ h =>
    have hb := hs.builders _ _ h
    exact hs.insertBuilder hb _
  | buildNode h _ | buildForest h _ => exact hs.setDrawn (hs.builders _ _ h) _
  | buildShared _ _ => exact hs.setDrawn hs.shared _

/-! ## Deleting steps -/

/-- The session `t` has everything of `s` that is on the sequences in `Q`, where the sequence `q` of
`s` is the sequence `ρ q` of `t`. -/
structure Follows (Q : SequenceId → Prop) (ρ : SequenceId → SequenceId) (s t : Session) : Prop where
  shared : ρ sharedSequence = sharedSequence
  lt : ∀ q < s.sequences, Q q → ρ q < t.sequences
  injective : ∀ q < s.sequences, ∀ q' < s.sequences, Q q → Q q' → ρ q = ρ q' → q = q'
  drawn : ∀ q < s.sequences, Q q → t.drawn (ρ q) = s.drawn q
  counters : ∀ id q, s.counters.get? id = some q → Q q → t.counters.get? id = some (ρ q)
  builders : ∀ id b, s.builders.get? id = some b → Q b.sequence →
    t.builders.get? id = some ⟨b.options, ρ b.sequence⟩

namespace Follows

variable {Q : SequenceId → Prop} {ρ : SequenceId → SequenceId}

theorem refl (s : Session) : Follows Q (fun q => q) s s where
  shared := rfl
  lt _ hq _ := hq
  injective _ _ _ _ _ _ h := h
  drawn _ _ _ := rfl
  counters _ _ h _ := h
  builders _ _ h _ := h

/-! ### Steps on both sides -/

theorem insertCounter (h : Follows Q ρ s t) (id : String) (q : SequenceId) :
    Follows Q ρ { s with counters := s.counters.insert id q }
      { t with counters := t.counters.insert id (ρ q) } := { h with
  counters := by
    intro id' q'
    rw [OrderedMap.get?_insert, OrderedMap.get?_insert]
    split
    · rintro ⟨⟩ _
      rfl
    · exact h.counters id' q' }

theorem insertBuilder (h : Follows Q ρ s t) (id : String) (o : BuildOptions) (q : SequenceId) :
    Follows Q ρ { s with builders := s.builders.insert id ⟨o, q⟩ }
      { t with builders := t.builders.insert id ⟨o, ρ q⟩ } := { h with
  builders := by
    intro id' b'
    rw [OrderedMap.get?_insert, OrderedMap.get?_insert]
    split
    · rintro ⟨⟩ _
      rfl
    · exact h.builders id' b' }

theorem setDrawn (h : Follows Q ρ s t) (hq : q < s.sequences) (hQ : Q q) (count : Nat) :
    Follows Q ρ (s.setDrawn q count) (t.setDrawn (ρ q) count) := { h with
  drawn := by
    intro q' hq' hQ'
    rw [drawn_setDrawn, drawn_setDrawn]
    by_cases heq : q' = q
    · rw [if_pos heq, if_pos (congrArg ρ heq)]
    · rw [if_neg heq, if_neg (mt (h.injective q' hq' q hq hQ' hQ) heq), h.drawn q' hq' hQ'] }

/-- The next sequence of one session is the next sequence of the other one. -/
theorem newSequence (h : Follows Q ρ s t) (hs : s.WellFormed) (ht : t.WellFormed) :
    Follows Q (Function.update ρ s.sequences t.sequences) { s with sequences := s.sequences + 1 }
      { t with sequences := t.sequences + 1 } := by
  have hold : ∀ q < s.sequences, Function.update ρ s.sequences t.sequences q = ρ q := fun q hq =>
    Function.update_of_ne (Nat.ne_of_lt hq) _ _
  have hnew : Function.update ρ s.sequences t.sequences s.sequences = t.sequences :=
    Function.update_self _ _ _
  -- A sequence is either the new one or one of those before.
  have hcases : ∀ q < s.sequences + 1, q < s.sequences ∨ q = s.sequences := fun q hq => by omega
  constructor
  case shared => rw [hold _ hs.shared, h.shared]
  case lt =>
    intro q hq hQ
    rcases hcases q hq with hq | rfl
    · rw [hold q hq]
      exact Nat.lt_succ_of_lt (h.lt q hq hQ)
    · rw [hnew]
      exact Nat.lt_succ_self _
  case injective =>
    intro q hq q' hq' hQ hQ' heq
    rcases hcases q hq with hq | rfl <;> rcases hcases q' hq' with hq' | rfl
    · rw [hold q hq, hold q' hq'] at heq
      exact h.injective q hq q' hq' hQ hQ' heq
    · rw [hold q hq, hnew] at heq
      exact absurd heq (Nat.ne_of_lt (h.lt q hq hQ))
    · rw [hold q' hq', hnew] at heq
      exact absurd heq.symm (Nat.ne_of_lt (h.lt q' hq' hQ'))
    · rfl
  case drawn =>
    intro q hq hQ
    rcases hcases q hq with hq | rfl
    · rw [hold q hq]
      exact h.drawn q hq hQ
    · rw [hnew]
      exact (ht.fresh _ (Nat.le_refl _)).trans (hs.fresh _ (Nat.le_refl _)).symm
  case counters =>
    intro id q hid hQ
    rw [hold q (hs.counters id q hid)]
    exact h.counters id q hid hQ
  case builders =>
    intro id b hid hQ
    rw [hold b.sequence (hs.builders id b hid)]
    exact h.builders id b hid hQ

/-! ### Steps on one side -/

theorem insertCounter_left (h : Follows Q ρ s t) (hQ : ¬Q q) (id : String) :
    Follows Q ρ { s with counters := s.counters.insert id q } t := { h with
  counters := by
    intro id' q'
    rw [OrderedMap.get?_insert]
    split
    · rintro ⟨⟩ hQ'
      exact absurd hQ' hQ
    · exact h.counters id' q' }

theorem insertBuilder_left {o : BuildOptions} (h : Follows Q ρ s t) (hQ : ¬Q q) (id : String) :
    Follows Q ρ { s with builders := s.builders.insert id ⟨o, q⟩ } t := { h with
  builders := by
    intro id' b'
    rw [OrderedMap.get?_insert]
    split
    · rintro ⟨⟩ hQ'
      exact absurd hQ' hQ
    · exact h.builders id' b' }

theorem setDrawn_left (h : Follows Q ρ s t) (hQ : ¬Q q) (count : Nat) :
    Follows Q ρ (s.setDrawn q count) t := { h with
  drawn := by
    intro q' hq' hQ'
    have hne : q' ≠ q := fun heq => hQ (heq ▸ hQ')
    rw [drawn_setDrawn, if_neg hne]
    exact h.drawn q' hq' hQ' }

theorem newSequence_left (h : Follows Q ρ s t) (hQ : ¬Q s.sequences) :
    Follows Q ρ { s with sequences := s.sequences + 1 } t := by
  have hlt : ∀ q < s.sequences + 1, Q q → q < s.sequences := by
    intro q hq hQ'
    have : q ≠ s.sequences := by
      rintro rfl
      exact hQ hQ'
    omega
  exact ⟨h.shared, fun q hq hQ => h.lt q (hlt q hq hQ) hQ,
    fun q hq q' hq' hQ hQ' => h.injective q (hlt q hq hQ) q' (hlt q' hq' hQ') hQ hQ',
    fun q hq hQ => h.drawn q (hlt q hq hQ) hQ, h.counters, h.builders⟩

end Follows

section Steps

variable {Q : SequenceId → Prop} {ρ : SequenceId → SequenceId}

/-- What happens on a sequence that is kept also happens in the other session. -/
theorem Happens.follow (h : s.Happens e s') (hs : s.WellFormed) (ht : t.WellFormed)
    (hfollows : Follows Q ρ s t) (hQ : Q e.sequence) :
    ∃ ρ' e' t', t.Happens e' t' ∧ e'.step = e.step ∧ e'.answer = e.answer ∧ Follows Q ρ' s' t' := by
  cases h with
  | newCounter id =>
    have hnew := (hfollows.newSequence hs ht).insertCounter id s.sequences
    rw [Function.update_self] at hnew
    exact ⟨_, _, _, .newCounter id, rfl, rfl, hnew⟩
  | copyCounter id h =>
    exact ⟨ρ, _, _, .copyCounter id (hfollows.counters _ _ h hQ), rfl, rfl,
      hfollows.insertCounter id _⟩
  | draw h =>
    have hq := hs.counters _ _ h
    have hhappens := Happens.draw (hfollows.counters _ _ h hQ)
    rw [hfollows.drawn _ hq hQ] at hhappens
    exact ⟨ρ, _, _, hhappens, rfl, rfl, hfollows.setDrawn hq hQ _⟩
  | drawName stem h =>
    have hq := hs.counters _ _ h
    have hhappens := Happens.drawName stem (hfollows.counters _ _ h hQ)
    rw [hfollows.drawn _ hq hQ] at hhappens
    exact ⟨ρ, _, _, hhappens, rfl, rfl, hfollows.setDrawn hq hQ _⟩
  | newBuilder id h =>
    exact ⟨ρ, _, _, .newBuilder id (hfollows.counters _ _ h hQ), rfl, rfl,
      hfollows.insertBuilder id {} _⟩
  | copyBuilder id h =>
    exact ⟨ρ, _, _, .copyBuilder id (hfollows.builders _ _ h hQ), rfl, rfl,
      hfollows.insertBuilder id _ _⟩
  | configure nameAnonymous stem h =>
    exact ⟨ρ, _, _, .configure nameAnonymous stem (hfollows.builders _ _ h hQ), rfl, rfl,
      hfollows.insertBuilder _ _ _⟩
  | buildNode h hdraws =>
    have hq := hs.builders _ _ h
    rw [← hfollows.drawn _ hq hQ] at hdraws ⊢
    exact ⟨ρ, _, _, .buildNode (hfollows.builders _ _ h hQ) hdraws, rfl, rfl,
      hfollows.setDrawn hq hQ _⟩
  | buildForest h hdraws =>
    have hq := hs.builders _ _ h
    rw [← hfollows.drawn _ hq hQ] at hdraws ⊢
    exact ⟨ρ, _, _, .buildForest (hfollows.builders _ _ h hQ) hdraws, rfl, rfl,
      hfollows.setDrawn hq hQ _⟩
  | buildShared h hdraws =>
    have hdrawn := hfollows.drawn _ hs.shared hQ
    have hset := hfollows.setDrawn hs.shared hQ
    rw [hfollows.shared] at hdrawn hset
    rw [← hdrawn] at hdraws ⊢
    exact ⟨ρ, _, _, .buildShared h hdraws, rfl, rfl, hset _⟩

/-- What happens on any other sequence can be left out. -/
theorem Happens.follow_left (h : s.Happens e s') (hfollows : Follows Q ρ s t)
    (hQ : ¬Q e.sequence) : Follows Q ρ s' t := by
  cases h with
  | newCounter id => exact (hfollows.newSequence_left hQ).insertCounter_left hQ id
  | copyCounter id h => exact hfollows.insertCounter_left hQ id
  | newBuilder | copyBuilder | configure => exact hfollows.insertBuilder_left hQ _
  | _ => exact hfollows.setDrawn_left hQ _

/-- Without the steps on some sequences, the steps on the others have the same answers. -/
theorem Runs.follow [DecidablePred Q] {history : List Event} (h : s.Runs history s')
    (hs : s.WellFormed) (ht : t.WellFormed) (hfollows : Follows Q ρ s t) :
    ∃ history' t', t.Runs history' t' ∧
      history'.map Event.step = (history.filter fun e => Q e.sequence).map Event.step ∧
      history'.map Event.answer = (history.filter fun e => Q e.sequence).map Event.answer := by
  induction h generalizing t ρ with
  | nil => exact ⟨[], t, .nil t, rfl, rfl⟩
  | @cons s s₁ s' e history head tail ih =>
    by_cases hQ : Q e.sequence
    · obtain ⟨ρ', e', t₁, head', hstep, hanswer, hfollows'⟩ := head.follow hs ht hfollows hQ
      obtain ⟨history', t', tail', hsteps, hanswers⟩ :=
        ih (head.wellFormed hs) (head'.wellFormed ht) hfollows'
      refine ⟨e' :: history', t', .cons head' tail', ?_, ?_⟩
      · simp [hQ, hstep, hsteps]
      · simp [hQ, hanswer, hanswers]
    · obtain ⟨history', t', tail', hsteps, hanswers⟩ :=
        ih (head.wellFormed hs) ht (head.follow_left hfollows hQ)
      refine ⟨history', t', tail', ?_, ?_⟩
      · simp [hQ, hsteps]
      · simp [hQ, hanswers]

end Steps

end Session

end AsnModel
