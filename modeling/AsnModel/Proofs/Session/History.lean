import AsnModel.Proofs.Build.Diagnosis
import AsnModel.Proofs.OrderedMap
import AsnModel.Session

/-!
# Histories of sessions

What happens in a session, step by step: which sequence a step acts on, and which numbers it draws.
From each sequence, one number after the other is drawn, beginning with 1.

## Main definitions

* `Event` — a step, its answer, the sequence it acts on, and the numbers it draws from it.
* `Session.Happens` — what can happen in a session.
* `Session.Runs` — the history of a session, from one state to another.
* `numbersFrom` — the numbers that are drawn from a sequence in a history.
-/

namespace AsnModel

open BuildM

/-- Something that happens in a session. -/
structure Event where
  step : Step
  answer : Answer
  /-- The sequence that the step acts on. A step acts on a builder's sequence when it makes, copies,
  changes or runs the builder, and on a handle's sequence when it makes, copies or uses the
  handle. -/
  sequence : SequenceId
  /-- The numbers drawn from the sequence, in order. -/
  numbers : List Nat

/-- The numbers drawn from a sequence in a history, in order. -/
def numbersFrom (sequence : SequenceId) (history : List Event) : List Nat :=
  (history.filter fun e => e.sequence = sequence).flatMap Event.numbers

/-! ## Building from trees as handed over -/

/-- Go on with what is recognised, if it is. -/
def attempt {α β : Type} (input : Except BuildError α) (act : α → BuildM β) : BuildM β :=
  match input with
  | .ok a => act a
  | .error e => throw e

/-- Build a node from a parse tree as handed over. -/
def buildHandedNode (tree : Tree String) : BuildM Node :=
  attempt (ParseTree.recognize tree) ParseTree.build

/-- Build modules from parse trees as handed over. -/
def buildHandedForest (trees : List (Tree String)) : BuildM (List Module) :=
  attempt (trees.mapM ParseTree.recognize) buildForest

/-- Change the options that are given. -/
def BuildOptions.change (o : BuildOptions) (nameAnonymous : Option Bool) (stem : Option String) :
    BuildOptions :=
  ⟨nameAnonymous.getD o.nameAnonymous, stem.getD o.stem⟩

section Agree

variable {o o' : BuildOptions}

theorem agree_attempt {α β : Type} {R : β → β → Prop} {E : α → BuildError → Prop}
    {input : Except BuildError α} {act : α → BuildM β}
    (h : ∀ a, Agree o o' (E a) R (act a) (act a)) :
    Agree o o' (fun _ => True) R (attempt input act) (attempt input act) := by
  cases input with
  | ok a => exact (h a).mono (fun _ _ => trivial) fun _ _ => id
  | error e => exact .throw trivial

theorem agree_buildHandedNode (ho : o.nameAnonymous = o'.nameAnonymous) (tree : Tree String) :
    Agree o o' (fun _ => True) (fun n n' => n.nameless = n'.nameless) (buildHandedNode tree)
      (buildHandedNode tree) :=
  agree_attempt fun t => t.agrees ho

theorem agree_buildHandedForest (ho : o.nameAnonymous = o'.nameAnonymous)
    (trees : List (Tree String)) :
    Agree o o' (fun _ => True) (fun ms ms' => ms.map Module.nameless = ms'.map Module.nameless)
      (buildHandedForest trees) (buildHandedForest trees) :=
  agree_attempt fun ts => agree_buildForest ho ts

end Agree

namespace Session

variable {s s' s'' : Session}

/-! ## What happens in a step -/

/-- What can happen in a session, and the session afterwards. -/
inductive Happens (s : Session) : Event → Session → Prop where
  | newCounter (id : String) :
    Happens s ⟨.newCounter id, .done, s.sequences, []⟩
      { s with sequences := s.sequences + 1, counters := s.counters.insert id s.sequences }
  | copyCounter {source : String} {q : SequenceId} (id : String)
      (h : s.counters.get? source = some q) :
    Happens s ⟨.copyCounter source id, .done, q, []⟩
      { s with counters := s.counters.insert id q }
  | draw {id : String} {q : SequenceId} (h : s.counters.get? id = some q) :
    Happens s ⟨.draw id, .number (s.drawn q + 1), q, [s.drawn q + 1]⟩
      (s.setDrawn q (s.drawn q + 1))
  | drawName {id : String} {q : SequenceId} (stem : String)
      (h : s.counters.get? id = some q) :
    Happens s
      ⟨.drawName id stem, .name (placeholderName stem (s.drawn q + 1)), q, [s.drawn q + 1]⟩
      (s.setDrawn q (s.drawn q + 1))
  | newBuilder {counter : String} {q : SequenceId} (id : String)
      (h : s.counters.get? counter = some q) :
    Happens s ⟨.newBuilder counter id, .done, q, []⟩
      { s with builders := s.builders.insert id ⟨{}, q⟩ }
  | copyBuilder {source : String} {b : Builder} (id : String)
      (h : s.builders.get? source = some b) :
    Happens s ⟨.copyBuilder source id, .done, b.sequence, []⟩
      { s with builders := s.builders.insert id b }
  | configure {id : String} {b : Builder} (nameAnonymous : Option Bool) (stem : Option String)
      (h : s.builders.get? id = some b) :
    Happens s
      ⟨.configure id nameAnonymous stem, .options (b.options.change nameAnonymous stem),
        b.sequence, []⟩
      { s with builders := s.builders.insert id ⟨b.options.change nameAnonymous stem, b.sequence⟩ }
  | buildNode {id : String} {b : Builder} {tree : Tree String} {ns : List Nat}
      {r : Except BuildError Node} (h : s.builders.get? id = some b)
      (hdraws : Draws b.options (buildHandedNode tree) (s.drawn b.sequence) ns r) :
    Happens s ⟨.buildNode id tree, .node r, b.sequence, ns⟩
      (s.setDrawn b.sequence (s.drawn b.sequence + ns.length))
  | buildForest {id : String} {b : Builder} {trees : List (Tree String)} {ns : List Nat}
      {r : Except BuildError (List Module)} (h : s.builders.get? id = some b)
      (hdraws : Draws b.options (buildHandedForest trees) (s.drawn b.sequence) ns r) :
    Happens s ⟨.buildForest id trees, .forest r, b.sequence, ns⟩
      (s.setDrawn b.sequence (s.drawn b.sequence + ns.length))
  | buildShared {tree : Tree String} {t : ParseTree} {ns : List Nat}
      {r : Except BuildError Node} (h : ParseTree.recognize tree = .ok t)
      (hdraws : Draws {} t.build (s.drawn sharedSequence) ns r) :
    Happens s ⟨.buildShared tree, .shared r.isOk ns.length, sharedSequence, ns⟩
      (s.setDrawn sharedSequence (s.drawn sharedSequence + ns.length))

@[simp] theorem setDrawn_self (s : Session) (q : SequenceId) : s.setDrawn q (s.drawn q) = s := by
  have hdrawn : (fun i => if i = q then s.drawn q else s.drawn i) = s.drawn := by
    funext i
    split <;> simp_all
  simp [setDrawn, hdrawn]

theorem drawn_setDrawn (s : Session) (q q' : SequenceId) (count : Nat) :
    (s.setDrawn q count).drawn q' = if q' = q then count else s.drawn q' := rfl

theorem counter_eq_ok_iff {id : String} {q : SequenceId} :
    s.counter id = .ok q ↔ s.counters.get? id = some q := by
  unfold counter
  cases s.counters.get? id <;> simp

theorem builder_eq_ok_iff {id : String} {b : Builder} :
    s.builder id = .ok b ↔ s.builders.get? id = some b := by
  unfold builder
  cases s.builders.get? id <;> simp

theorem build_eq {α : Type} {b : Builder} {x : BuildM α} {ns : List Nat} {r : Except BuildError α}
    (h : Draws b.options x (s.drawn b.sequence) ns r) :
    s.build b x = (r, s.setDrawn b.sequence (s.drawn b.sequence + ns.length)) := by
  simp [build, h.runFrom_eq]

/-- An unknown label is one more way for a build to fail. -/
theorem buildRecognized_eq {α β : Type} (b : Builder) (input : Except BuildError α)
    (act : α → BuildM β) : s.buildRecognized b input act = s.build b (attempt input act) := by
  cases input with
  | ok a => rfl
  | error e => rw [attempt, build_eq (.throw e _)]; simp [buildRecognized]

theorem happens_of_step {st : Step} {a : Answer} (h : s.step st = .ok (a, s')) :
    ∃ q ns, s.Happens ⟨st, a, q, ns⟩ s' := by
  cases st with
  | newCounter id =>
    cases h
    exact ⟨_, _, .newCounter id⟩
  | copyCounter source id =>
    obtain ⟨q, hq, h⟩ := bind_eq_ok_iff.1 h
    cases h
    exact ⟨_, _, .copyCounter id (counter_eq_ok_iff.1 hq)⟩
  | draw id =>
    obtain ⟨q, hq, h⟩ := bind_eq_ok_iff.1 h
    cases h
    exact ⟨_, _, .draw (counter_eq_ok_iff.1 hq)⟩
  | drawName id stem =>
    obtain ⟨q, hq, h⟩ := bind_eq_ok_iff.1 h
    cases h
    exact ⟨_, _, .drawName stem (counter_eq_ok_iff.1 hq)⟩
  | newBuilder counter id =>
    obtain ⟨q, hq, h⟩ := bind_eq_ok_iff.1 h
    cases h
    exact ⟨_, _, .newBuilder id (counter_eq_ok_iff.1 hq)⟩
  | copyBuilder source id =>
    obtain ⟨b, hb, h⟩ := bind_eq_ok_iff.1 h
    cases h
    exact ⟨_, _, .copyBuilder id (builder_eq_ok_iff.1 hb)⟩
  | configure id nameAnonymous stem =>
    obtain ⟨b, hb, h⟩ := bind_eq_ok_iff.1 h
    cases h
    exact ⟨_, _, .configure nameAnonymous stem (builder_eq_ok_iff.1 hb)⟩
  | buildNode id tree =>
    obtain ⟨b, hb, h⟩ := bind_eq_ok_iff.1 h
    have hagree := agree_buildHandedNode (o := b.options) rfl tree
    obtain ⟨ns, r, hdraws⟩ := hagree.exists_draws (s.drawn b.sequence)
    rw [buildRecognized_eq, ← buildHandedNode, build_eq hdraws] at h
    cases h
    exact ⟨_, _, .buildNode (builder_eq_ok_iff.1 hb) hdraws⟩
  | buildForest id trees =>
    obtain ⟨b, hb, h⟩ := bind_eq_ok_iff.1 h
    have hagree := agree_buildHandedForest (o := b.options) rfl trees
    obtain ⟨ns, r, hdraws⟩ := hagree.exists_draws (s.drawn b.sequence)
    rw [buildRecognized_eq, ← buildHandedForest, build_eq hdraws] at h
    cases h
    exact ⟨_, _, .buildForest (builder_eq_ok_iff.1 hb) hdraws⟩
  | buildShared tree =>
    obtain ⟨t, ht, h⟩ := bind_eq_ok_iff.1 h
    obtain ⟨ns, r, hdraws⟩ := Agree.exists_draws (t.agrees (o := {}) rfl) (s.drawn sharedSequence)
    rw [build_eq (b := ⟨{}, sharedSequence⟩) hdraws] at h
    simp only [drawn_setDrawn, if_pos, Nat.add_sub_cancel_left] at h
    cases h
    exact ⟨_, _, .buildShared (mapError_eq_ok_iff.1 ht) hdraws⟩

theorem step_of_happens {e : Event} (h : s.Happens e s') : s.step e.step = .ok (e.answer, s') := by
  cases h with
  | newCounter id => rfl
  | copyCounter id h | draw h | drawName stem h | newBuilder id h =>
    exact bind_eq_ok_iff.2 ⟨_, counter_eq_ok_iff.2 h, rfl⟩
  | copyBuilder id h | configure nameAnonymous stem h =>
    exact bind_eq_ok_iff.2 ⟨_, builder_eq_ok_iff.2 h, rfl⟩
  | buildNode h hdraws =>
    refine bind_eq_ok_iff.2 ⟨_, builder_eq_ok_iff.2 h, ?_⟩
    rw [buildRecognized_eq, ← buildHandedNode, build_eq hdraws]
    rfl
  | buildForest h hdraws =>
    refine bind_eq_ok_iff.2 ⟨_, builder_eq_ok_iff.2 h, ?_⟩
    rw [buildRecognized_eq, ← buildHandedForest, build_eq hdraws]
    rfl
  | buildShared h hdraws =>
    refine bind_eq_ok_iff.2 ⟨_, mapError_eq_ok_iff.2 h, ?_⟩
    rw [build_eq (b := ⟨{}, sharedSequence⟩) hdraws]
    simp only [drawn_setDrawn, if_pos, Nat.add_sub_cancel_left]
    rfl

/-! ## Whole sessions -/

/-- The history of a session from `s` on to `s'`. -/
inductive Runs : Session → List Event → Session → Prop where
  | nil (s : Session) : Runs s [] s
  | cons {s s₁ s' : Session} {e : Event} {history : List Event} (head : s.Happens e s₁)
      (tail : Runs s₁ history s') : Runs s (e :: history) s'

/-- Every run of a session has its history. -/
theorem run_eq_ok_iff {steps : List Step} {answers : List Answer} :
    s.run steps = .ok (answers, s') ↔ ∃ history, s.Runs history s' ∧
      history.map Event.step = steps ∧ history.map Event.answer = answers := by
  induction steps generalizing s answers with
  | nil =>
    constructor
    · intro h
      cases h
      exact ⟨[], .nil _, rfl, rfl⟩
    · rintro ⟨history, hruns, hsteps, rfl⟩
      obtain rfl : history = [] := by simpa using hsteps
      cases hruns
      rfl
  | cons st steps ih =>
    constructor
    · intro h
      obtain ⟨⟨a, s₁⟩, hstep, h⟩ := bind_eq_ok_iff.1 h
      obtain ⟨⟨as, s₂⟩, hrun, h⟩ := bind_eq_ok_iff.1 h
      cases h
      obtain ⟨q, ns, head⟩ := happens_of_step hstep
      obtain ⟨history, tail, rfl, rfl⟩ := ih.1 hrun
      exact ⟨_, .cons head tail, rfl, rfl⟩
    · rintro ⟨history, hruns, hsteps, rfl⟩
      cases hruns with
      | nil => simp at hsteps
      | cons head tail =>
        obtain ⟨rfl, hrest⟩ := List.cons.inj hsteps
        exact bind_eq_ok_iff.2 ⟨_, step_of_happens head,
          bind_eq_ok_iff.2 ⟨_, ih.2 ⟨_, tail, hrest, rfl⟩, rfl⟩⟩

/-! ## Numbers -/

/-- A step draws the next numbers of its sequence, and none of any other one. -/
theorem Happens.drawn_eq {e : Event} (h : s.Happens e s') :
    e.numbers = List.range' (s.drawn e.sequence + 1) e.numbers.length ∧
      ∀ q, s'.drawn q = s.drawn q + if e.sequence = q then e.numbers.length else 0 := by
  have hset : ∀ (q : SequenceId) (count : Nat), ∀ q', (s.setDrawn q (s.drawn q + count)).drawn q' =
      s.drawn q' + if q = q' then count else 0 := by
    intro q count q'
    rw [drawn_setDrawn]
    split_ifs <;> simp_all
  cases h with
  | newCounter | copyCounter | newBuilder | copyBuilder | configure => simp
  | draw | drawName => exact ⟨rfl, hset _ 1⟩
  | buildNode _ hdraws | buildForest _ hdraws | buildShared _ hdraws =>
    exact ⟨hdraws.eq_range', hset _ _⟩

/-- The numbers drawn from a sequence follow one another. -/
theorem Runs.numbersFrom_eq {history : List Event} (h : s.Runs history s') (q : SequenceId) :
    numbersFrom q history = List.range' (s.drawn q + 1) (numbersFrom q history).length ∧
      s'.drawn q = s.drawn q + (numbersFrom q history).length := by
  induction h with
  | nil => simp [numbersFrom]
  | @cons s s₁ s' e history head tail ih =>
    obtain ⟨hnumbers, hdrawn⟩ := head.drawn_eq
    have hdrawn := hdrawn q
    by_cases hq : e.sequence = q
    · subst hq
      have hcons : numbersFrom e.sequence (e :: history) =
          e.numbers ++ numbersFrom e.sequence history := by
        simp [numbersFrom]
      rw [if_pos rfl] at hdrawn
      rw [hcons, List.length_append, ← List.range'_append_1, ← hnumbers, ← Nat.add_assoc, ih.2,
        hdrawn, Nat.add_right_comm, ← hdrawn, ← ih.1]
      exact ⟨rfl, rfl⟩
    · have hcons : numbersFrom q (e :: history) = numbersFrom q history := by
        simp [numbersFrom, hq]
      rw [if_neg hq] at hdrawn
      rw [hcons, ← Nat.add_zero (s.drawn q), ← hdrawn]
      exact ih

end Session

end AsnModel
