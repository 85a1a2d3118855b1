import AsnModel.Proofs.Build.Placeholders
import AsnModel.Proofs.Session.Deletion

/-!
# Changing the options of a builder

A builder's options are its own. A change of them comes to other builders only by copies that are
made of the builder afterwards, and it goes from a slot again when the slot is filled anew. What
happens on the builders that the change has not come to, and on handles, can tell it only by
numbers: builds of a changed builder may draw other numbers of a sequence that they share.

## Main definitions

* `OptionChanges` — which options of a builder a change has come to.
* `Step.carry` — where a step carries a change.
* `Step.shown` — the changed options that the answer of a step depends on.
* `Answer.SameButNumbers` — answers that differ in the numbers drawn for them at most.
* `Session.Like` — sessions that differ in changed options, and in numbers, at most.
* `Event.Counterpart` — what happens on one step in two such sessions.
* `MatchAlong` — two histories that match event by event, while a change is carried along.
-/

namespace AsnModel

open BuildM

/-! ## Where a change comes to -/

/-- Which options of a builder a change has come to. -/
structure OptionChanges where
  nameAnonymous : Bool
  stem : Bool
deriving DecidableEq

namespace OptionChanges

/-- No option is changed. -/
def none : OptionChanges := ⟨false, false⟩

/-- What is left of a change when some options are given anew. -/
def giveAnew (m : OptionChanges) (nameAnonymous : Option Bool) (stem : Option String) :
    OptionChanges :=
  ⟨m.nameAnonymous && nameAnonymous.isNone, m.stem && stem.isNone⟩

/-- A change of some options of one builder. -/
def ofChange (id : String) (nameAnonymous : Option Bool) (stem : Option String) :
    String → OptionChanges :=
  Function.update (fun _ => none) id ⟨nameAnonymous.isSome, stem.isSome⟩

theorem nameAnonymous_ofChange (id : String) (stem : Option String) (id' : String) :
    (ofChange id .none stem id').nameAnonymous = false := by
  rw [ofChange, Function.update_apply]
  split <;> rfl

end OptionChanges

namespace Step

/-- The slot of the builder that a step makes, changes or runs, if it does so. -/
def builderSlot? : Step → Option String
  | .newBuilder _ id | .copyBuilder _ id | .configure id _ _ | .buildNode id _
  | .buildForest id _ => some id
  | _ => none

/-- Where a change has come to after a step, by slots of builders. -/
def carry (c : String → OptionChanges) (st : Step) : String → OptionChanges :=
  match st with
  | .newBuilder _ id => Function.update c id .none
  | .copyBuilder source id => Function.update c id (c source)
  | .configure id nameAnonymous stem =>
    Function.update c id ((c id).giveAnew nameAnonymous stem)
  | _ => c

/-- The slot of the builder that a step runs, if it runs one. -/
def built? : Step → Option String
  | .buildNode id _ | .buildForest id _ => some id
  | _ => none

/-- The changed options that the answer of a step depends on. -/
def shown (c : String → OptionChanges) (st : Step) : OptionChanges :=
  match st with
  | .configure id nameAnonymous stem => (c id).giveAnew nameAnonymous stem
  | .buildNode id _ | .buildForest id _ => c id
  | _ => .none

/-- A change of the stem stays one of the stem. -/
theorem nameAnonymous_carry {c : String → OptionChanges} (h : ∀ id, (c id).nameAnonymous = false)
    (st : Step) (id : String) : (st.carry c id).nameAnonymous = false := by
  cases st with
  | newBuilder _ id' | copyBuilder _ id' | configure id' =>
    rw [carry, Function.update_apply]
    split <;> simp [h, OptionChanges.none, OptionChanges.giveAnew]
  | _ => exact h id

end Step

/-- Two histories in which each event matches the one on the other side, where `c` tells where a
change has come to before the first of them. -/
inductive MatchAlong (R : (String → OptionChanges) → Event → Event → Prop) :
    (String → OptionChanges) → List Event → List Event → Prop where
  | nil (c : String → OptionChanges) : MatchAlong R c [] []
  | cons {c : String → OptionChanges} {e e' : Event} {es es' : List Event} (head : R c e e')
      (tail : MatchAlong R (e.step.carry c) es es') : MatchAlong R c (e :: es) (e' :: es')

/-! ## Counterparts -/

/-- Two answers that differ in the numbers drawn for them at most. -/
inductive Answer.SameButNumbers : Answer → Answer → Prop where
  | same (a : Answer) : SameButNumbers a a
  | number (m n : Nat) : SameButNumbers (.number m) (.number n)
  | name (stem : String) (m n : Nat) :
    SameButNumbers (.name (placeholderName stem m)) (.name (placeholderName stem n))
  | node {n n' : Node} {stem : String} {drawn drawn' : Nat} {namings : List Naming}
      (h : n.nameless = n'.nameless) (hn : n.identifiers = fillNames stem drawn namings)
      (hn' : n'.identifiers = fillNames stem drawn' namings) :
    SameButNumbers (.node (.ok n)) (.node (.ok n'))
  | forest {ms ms' : List Module} {stem : String} {drawn drawn' : Nat} {namings : List Naming}
      (h : ms.map Module.nameless = ms'.map Module.nameless)
      (hms : (ms.flatMap fun m => (Node.module m).identifiers) = fillNames stem drawn namings)
      (hms' : (ms'.flatMap fun m => (Node.module m).identifiers) = fillNames stem drawn' namings) :
    SameButNumbers (.forest (.ok ms)) (.forest (.ok ms'))

/-- Two events draw equally many numbers. -/
def Event.SameCount (e e' : Event) : Prop := e'.numbers.length = e.numbers.length

/-- If the events are on the sequence `q`, they draw equally many numbers. -/
def Event.SameCountOn (q : SequenceId) (e e' : Event) : Prop := e.sequence = q → e.SameCount e'

/-- If the events are on the sequence `q`, they have the same answer, as far as it does not depend on
changed options. -/
def Event.SameAnswerOn (q : SequenceId) (c : String → OptionChanges) (e e' : Event) : Prop :=
  e.sequence = q → e.step.shown c = .none → e'.answer = e.answer

/-- The second event is what happens on the step of the first one, with other numbers at most, as
far as the answer does not depend on changed options. Only builds with another treatment of anonymous
members may draw another count of numbers. -/
structure Event.Counterpart (c : String → OptionChanges) (e e' : Event) : Prop where
  step : e'.step = e.step
  sequence : e'.sequence = e.sequence
  count : (∀ id, e.step.built? = some id → (c id).nameAnonymous = false) → e.SameCount e'
  answer : e.step.shown c = .none → e.answer.SameButNumbers e'.answer

/-- Counterparts that have the same answer if `same`. -/
structure Event.Matches (c : String → OptionChanges) (same : Prop) (e e' : Event) : Prop extends
    e.Counterpart c e' where
  answerSame : e.step.shown c = .none → same → e'.answer = e.answer

theorem Event.Matches.of_answer {c : String → OptionChanges} {same : Prop} {st : Step} {a : Answer}
    {q q' : SequenceId} {ns ns' : List Nat} (hq : q' = q) (hcount : ns'.length = ns.length) :
    Matches c same ⟨st, a, q, ns⟩ ⟨st, a, q', ns'⟩ :=
  ⟨⟨rfl, hq, fun _ => hcount, fun _ => .same _⟩, fun _ _ => rfl⟩

/-- After a change of the stem, every event draws as many numbers as its counterpart. -/
theorem MatchAlong.sameCount {c : String → OptionChanges} {es es' : List Event}
    (h : MatchAlong Event.Counterpart c es es') (hc : ∀ id, (c id).nameAnonymous = false) :
    List.Forall₂ Event.SameCount es es' := by
  induction h with
  | nil => exact .nil
  | @cons c e _ _ _ head _ ih =>
    exact .cons (head.count fun id _ => hc id) (ih (e.step.nameAnonymous_carry hc))

/-- Builders on one sequence, whose options differ as far as they are changed. -/
structure Builder.Like (m : OptionChanges) (b b' : Builder) : Prop where
  sequence : b'.sequence = b.sequence
  nameAnonymous : m.nameAnonymous = false → b'.options.nameAnonymous = b.options.nameAnonymous
  stem : m.stem = false → b'.options.stem = b.options.stem

namespace Builder.Like

variable {m : OptionChanges} {b b' : Builder}

theorem refl (m : OptionChanges) (b : Builder) : b.Like m b := ⟨rfl, fun _ => rfl, fun _ => rfl⟩

theorem options (h : b.Like .none b') : b'.options = b.options := by
  have hnaming := h.nameAnonymous rfl
  have hstem := h.stem rfl
  generalize b.options = o at *
  generalize b'.options = o' at *
  cases o
  cases o'
  congr

theorem change (h : b.Like m b') (nameAnonymous : Option Bool) (stem : Option String) :
    Builder.Like (m.giveAnew nameAnonymous stem)
      ⟨b.options.change nameAnonymous stem, b.sequence⟩
      ⟨b'.options.change nameAnonymous stem, b'.sequence⟩ where
  sequence := h.sequence
  nameAnonymous hm := by
    cases nameAnonymous with
    | none => exact h.nameAnonymous (by simpa [OptionChanges.giveAnew] using hm)
    | some => rfl
  stem hm := by
    cases stem with
    | none => exact h.stem (by simpa [OptionChanges.giveAnew] using hm)
    | some => rfl

end Builder.Like

namespace Session

variable {c : String → OptionChanges} {s s' t : Session} {e : Event}

/-- Sessions with the same slots. The options of a builder may differ as far as a change has come to
them. How many numbers have been drawn may be different. -/
structure Like (c : String → OptionChanges) (s t : Session) : Prop where
  sequences : t.sequences = s.sequences
  counters : t.counters = s.counters
  builders : ∀ id, Option.Rel (Builder.Like (c id)) (s.builders.get? id) (t.builders.get? id)

namespace Like

theorem refl (c : String → OptionChanges) (s : Session) : Like c s s where
  sequences := rfl
  counters := rfl
  builders id := by
    cases s.builders.get? id with
    | none => exact .none
    | some b => exact .some (.refl _ b)

theorem exists_builder (h : Like c s t) {id : String} {b : Builder}
    (hb : s.builders.get? id = some b) :
    ∃ b', t.builders.get? id = some b' ∧ b.Like (c id) b' := by
  have hrel := h.builders id
  rw [hb] at hrel
  generalize t.builders.get? id = slot at hrel
  cases hrel with
  | some hlike => exact ⟨_, rfl, hlike⟩

theorem insertCounter (h : Like c s t) (id : String) (q : SequenceId) :
    Like c { s with counters := s.counters.insert id q }
      { t with counters := t.counters.insert id q } :=
  { h with counters := by rw [h.counters] }

theorem newSequence (h : Like c s t) :
    Like c { s with sequences := s.sequences + 1 } { t with sequences := t.sequences + 1 } :=
  { h with sequences := by rw [h.sequences] }

theorem insertBuilder (h : Like c s t) (id : String) {m : OptionChanges} {b b' : Builder}
    (hb : b.Like m b') :
    Like (Function.update c id m) { s with builders := s.builders.insert id b }
      { t with builders := t.builders.insert id b' } := { h with
  builders := by
    intro id'
    rw [OrderedMap.get?_insert, OrderedMap.get?_insert, Function.update_apply]
    split
    · exact .some hb
    · exact h.builders id' }

/-- How many numbers have been drawn does not matter. -/
theorem setDrawn (h : Like c s t) (q q' : SequenceId) (count count' : Nat) :
    Like c (s.setDrawn q count) (t.setDrawn q' count') :=
  ⟨h.sequences, h.counters, h.builders⟩

end Like

/-- A change of the options of one builder makes no other difference. -/
theorem Happens.like_left (h : s.Happens e s') {id : String} {nameAnonymous : Option Bool}
    {stem : Option String} (hstep : e.step = .configure id nameAnonymous stem) :
    Like (.ofChange id nameAnonymous stem) s' s ∧ s'.drawn = s.drawn := by
  cases h <;> cases hstep
  case configure b h =>
    refine ⟨⟨rfl, rfl, fun id' => ?_⟩, rfl⟩
    rw [OrderedMap.get?_insert, OptionChanges.ofChange, Function.update_apply]
    split
    case isTrue heq =>
      subst heq
      rw [h]
      refine .some ⟨rfl, fun hnaming => ?_, fun hstem => ?_⟩
      · rw [Option.isSome_eq_false_iff, Option.isNone_iff_eq_none] at hnaming
        rw [hnaming]
        rfl
      · rw [Option.isSome_eq_false_iff, Option.isNone_iff_eq_none] at hstem
        rw [hstem]
        rfl
    case isFalse => exact (Like.refl (fun _ => .none) s).builders id'

section Builds

variable {α : Type} {x : BuildM α} {R : α → α → Prop} {b b' : Builder} {ns ns' : List Nat}
  {drawn drawn' : Nat}

/-- A build by a builder, and by another one that is like it, wherever the sequence stands. -/
theorem exists_matching_build {answer : Except BuildError α → Answer} {st : Step} {id : String}
    {r : Except BuildError α} (hbuilt : st.built? = some id) (hshown : st.shown c = c id)
    (hagree : ∀ {o o' : BuildOptions}, o.nameAnonymous = o'.nameAnonymous →
      Agree o o' (fun _ => True) R x x)
    (hanswer : ∀ {o ns ns' drawn drawn' r r'}, Draws o x drawn ns r → Draws o x drawn' ns' r' →
      SameOutcome (fun _ => True) R r r' → (answer r).SameButNumbers (answer r'))
    (hb : b.Like (c id) b') (hdraws : Draws b.options x drawn ns r) (drawn' : Nat) :
    ∃ ns' r', Draws b'.options x drawn' ns' r' ∧
      Event.Matches c (drawn' = drawn) ⟨st, answer r, b.sequence, ns⟩
        ⟨st, answer r', b'.sequence, ns'⟩ := by
  obtain ⟨ns', r', hdraws'⟩ := (hagree (o := b'.options) rfl).exists_draws drawn'
  have hsame : st.shown c = .none → Draws b.options x drawn' ns' r' := fun hnone => by
    rw [← hshown, hnone] at hb
    rwa [hb.options] at hdraws'
  refine ⟨ns', r', hdraws', ⟨⟨rfl, hb.sequence, fun hnaming => ?_, fun hnone => ?_⟩, ?_⟩⟩
  · exact ((hagree (hb.nameAnonymous (hnaming id hbuilt)).symm).of_draws hdraws hdraws').1.symm
  · have houtcome := ((hagree rfl).of_draws hdraws (hsame hnone)).2
    exact hanswer hdraws (hsame hnone) houtcome
  · rintro hnone rfl
    exact congrArg answer ((hsame hnone).unique hdraws).2

theorem sameButNumbers_node {o : BuildOptions} {tree : Tree String}
    {r r' : Except BuildError Node} (hdraws : Draws o (buildHandedNode tree) drawn ns r)
    (hdraws' : Draws o (buildHandedNode tree) drawn' ns' r')
    (h : SameOutcome (fun _ => True) (fun n n' => n.nameless = n'.nameless) r r') :
    (Answer.node r).SameButNumbers (.node r') := by
  unfold buildHandedNode at hdraws hdraws'
  cases h with
  | error => exact .same _
  | ok hn =>
    cases hrecognized : ParseTree.recognize tree with
    | error e =>
      rw [hrecognized] at hdraws
      exact absurd hdraws.runFrom_eq not_gives_throw
    | ok t =>
      rw [hrecognized] at hdraws hdraws'
      exact .node hn (identifiers_of_gives hdraws.runFrom_eq).1
        (identifiers_of_gives hdraws'.runFrom_eq).1

theorem sameButNumbers_forest {o : BuildOptions} {trees : List (Tree String)}
    {r r' : Except BuildError (List Module)}
    (hdraws : Draws o (buildHandedForest trees) drawn ns r)
    (hdraws' : Draws o (buildHandedForest trees) drawn' ns' r')
    (h : SameOutcome (fun _ => True)
      (fun ms ms' => ms.map Module.nameless = ms'.map Module.nameless) r r') :
    (Answer.forest r).SameButNumbers (.forest r') := by
  unfold buildHandedForest at hdraws hdraws'
  cases h with
  | error => exact .same _
  | ok hms =>
    cases hrecognized : trees.mapM ParseTree.recognize with
    | error e =>
      rw [hrecognized] at hdraws
      exact absurd hdraws.runFrom_eq not_gives_throw
    | ok ts =>
      rw [hrecognized] at hdraws hdraws'
      exact .forest hms (identifiers_of_gives_buildForest hdraws.runFrom_eq).1
        (identifiers_of_gives_buildForest hdraws'.runFrom_eq).1

end Builds

/-- What happens in one session has its counterpart in the other one. -/
theorem Happens.like (h : s.Happens e s') (hlike : Like c s t) :
    ∃ e' t', t.Happens e' t' ∧ Like (e.step.carry c) s' t' ∧
      e.Matches c (t.drawn e.sequence = s.drawn e.sequence) e' := by
  have hcounter : ∀ {id q}, s.counters.get? id = some q → t.counters.get? id = some q := by
    intro id q hq
    rw [hlike.counters, hq]
  cases h with
  | newCounter id =>
    have hnew := hlike.newSequence.insertCounter id s.sequences
    refine ⟨_, _, .newCounter id, ?_, .of_answer hlike.sequences rfl⟩
    rw [hlike.sequences] at hnew ⊢
    exact hnew
  | @copyCounter _ q id h =>
    exact ⟨_, _, .copyCounter id (hcounter h), hlike.insertCounter id q, .of_answer rfl rfl⟩
  | draw h =>
    refine ⟨_, _, .draw (hcounter h), hlike.setDrawn _ _ _ _,
      ⟨⟨rfl, rfl, fun _ => rfl, fun _ => .number _ _⟩, fun _ hdrawn => ?_⟩⟩
    simp [hdrawn]
  | drawName stem h =>
    refine ⟨_, _, .drawName stem (hcounter h), hlike.setDrawn _ _ _ _,
      ⟨⟨rfl, rfl, fun _ => rfl, fun _ => .name _ _ _⟩, fun _ hdrawn => ?_⟩⟩
    simp [hdrawn]
  | @newBuilder _ q id h =>
    have hlike' := hlike.insertBuilder id (.refl .none ⟨{}, q⟩)
    exact ⟨_, _, .newBuilder id (hcounter h), hlike', .of_answer rfl rfl⟩
  | @copyBuilder source b id h =>
    obtain ⟨b', hb', hb⟩ := hlike.exists_builder h
    exact ⟨_, _, .copyBuilder id hb', hlike.insertBuilder id hb, .of_answer hb.sequence rfl⟩
  | @configure id b nameAnonymous stem h =>
    obtain ⟨b', hb', hb⟩ := hlike.exists_builder h
    have hchange := hb.change nameAnonymous stem
    have hsame : (c id).giveAnew nameAnonymous stem = .none →
        b'.options.change nameAnonymous stem = b.options.change nameAnonymous stem := fun hnone =>
      (hnone ▸ hchange).options
    refine ⟨_, _, .configure nameAnonymous stem hb', hlike.insertBuilder id hchange,
      ⟨⟨rfl, hb.sequence, fun _ => rfl, fun hnone => ?_⟩, fun hnone _ => ?_⟩⟩
    · rw [hsame hnone]
      exact .same _
    · rw [hsame hnone]
  | @buildNode id b tree ns r h hdraws =>
    obtain ⟨b', hb', hb⟩ := hlike.exists_builder h
    have hbuilt : (Step.buildNode id tree).built? = some id := rfl
    obtain ⟨ns', r', hdraws', hmatches⟩ := exists_matching_build hbuilt rfl
      (agree_buildHandedNode · tree) sameButNumbers_node hb hdraws (t.drawn b'.sequence)
    exact ⟨_, _, .buildNode hb' hdraws', hlike.setDrawn _ _ _ _,
      by simpa only [hb.sequence] using hmatches⟩
  | @buildForest id b trees ns r h hdraws =>
    obtain ⟨b', hb', hb⟩ := hlike.exists_builder h
    have hbuilt : (Step.buildForest id trees).built? = some id := rfl
    obtain ⟨ns', r', hdraws', hmatches⟩ := exists_matching_build hbuilt rfl
      (agree_buildHandedForest · trees) sameButNumbers_forest hb hdraws (t.drawn b'.sequence)
    exact ⟨_, _, .buildForest hb' hdraws', hlike.setDrawn _ _ _ _,
      by simpa only [hb.sequence] using hmatches⟩
  | @buildShared tree u ns r h hdraws =>
    have hagree := u.agrees (o := {}) rfl
    obtain ⟨ns', r', hdraws'⟩ := Agree.exists_draws hagree (t.drawn sharedSequence)
    obtain ⟨hcount, houtcome⟩ := Agree.of_draws hagree hdraws hdraws'
    have hok : r'.isOk = r.isOk := by cases houtcome <;> rfl
    refine ⟨_, _, .buildShared h hdraws', hlike.setDrawn _ _ _ _, ?_⟩
    rw [hok, ← hcount]
    exact .of_answer rfl hcount.symm

/-- What happens after a change has its counterpart without the change. The answers on a sequence
are even the same, as long as equally many numbers are drawn from it. -/
theorem Runs.like {history : List Event} (h : s.Runs history s') (hlike : Like c s t) :
    ∃ history' t', t.Runs history' t' ∧ MatchAlong Event.Counterpart c history history' ∧
      ∀ q n, t.drawn q = s.drawn q →
        List.Forall₂ (Event.SameCountOn q) (history.take n) (history'.take n) →
        MatchAlong (Event.SameAnswerOn q) c (history.take n) (history'.take n) := by
  induction h generalizing t c with
  | nil => exact ⟨[], t, .nil t, .nil c, fun _ _ _ _ => by simpa using .nil c⟩
  | @cons s s₁ s' e history head tail ih =>
    obtain ⟨e', t₁, head', hlike', hmatches⟩ := head.like hlike
    obtain ⟨history', t', tail', hcounterparts, hanswers⟩ := ih hlike'
    refine ⟨e' :: history', t', .cons head' tail', .cons hmatches.toCounterpart hcounterparts,
      fun q n hdrawn hsame => ?_⟩
    cases n with
    | zero => exact .nil c
    | succ n =>
      obtain ⟨hhead, hrest⟩ := List.forall₂_cons.1 hsame
      have hdrawn₁ : t₁.drawn q = s₁.drawn q := by
        rw [head'.drawn_eq.2, head.drawn_eq.2, hdrawn, hmatches.sequence]
        split
        case isTrue hq => rw [hhead hq]
        case isFalse => rfl
      refine .cons ?_ (hanswers q n hdrawn₁ hrest)
      rintro rfl hnone
      exact hmatches.answerSame hnone hdrawn

/-- Without a change of options, what happens afterwards has its counterpart. -/
theorem Runs.without_change {before after : List Event} (h : s.Runs (before ++ e :: after) s')
    {id : String} {nameAnonymous : Option Bool} {stem : Option String}
    (hstep : e.step = .configure id nameAnonymous stem) :
    ∃ after' s'', s.Runs (before ++ after') s'' ∧
      MatchAlong Event.Counterpart (.ofChange id nameAnonymous stem) after after' ∧
      ∀ q n, List.Forall₂ (Event.SameCountOn q) (after.take n) (after'.take n) →
        MatchAlong (Event.SameAnswerOn q) (.ofChange id nameAnonymous stem) (after.take n)
          (after'.take n) := by
  induction before generalizing s with
  | nil =>
    cases h with
    | cons head tail =>
      obtain ⟨hlike, hdrawn⟩ := head.like_left hstep
      obtain ⟨after', s'', hruns, hcounterparts, hanswers⟩ := tail.like hlike
      exact ⟨after', s'', hruns, hcounterparts, fun q n => hanswers q n (by rw [hdrawn])⟩
  | cons f before ih =>
    cases h with
    | cons head tail =>
      obtain ⟨after', s'', hruns, hrest⟩ := ih tail
      exact ⟨after', s'', .cons head hruns, hrest⟩

/-! ## Whole sessions -/

/-- In every session, the numbers drawn from a sequence are 1, 2, 3 and so on. Without the steps on
some sequences, the steps on the others have the same answers. And without a change of a builder's
options, the steps that do not depend on options to which the change has come have answers that
differ in numbers at most. They have the same answers as long as equally many numbers are drawn from
the sequence with the change and without it, as they are after a change of the stem. -/
theorem sequences_of_run (steps : List Step) (answers : List Answer) (s' : Session)
    (h : start.run steps = .ok (answers, s')) :
    ∃ history, start.Runs history s' ∧ history.map Event.step = steps ∧
      history.map Event.answer = answers ∧
      (∀ q, numbersFrom q history = List.range' 1 (s'.drawn q)) ∧
      (∀ (Q : SequenceId → Prop) [DecidablePred Q], ∃ s'',
        start.run ((history.filter fun e => Q e.sequence).map Event.step) =
          .ok ((history.filter fun e => Q e.sequence).map Event.answer, s'')) ∧
      (∀ (before after : List Event) (e : Event) (id : String) (nameAnonymous : Option Bool)
        (stem : Option String),
        history = before ++ e :: after → e.step = .configure id nameAnonymous stem →
        ∃ after' s'', start.Runs (before ++ after') s'' ∧
          MatchAlong Event.Counterpart (.ofChange id nameAnonymous stem) after after' ∧
          (nameAnonymous = none → List.Forall₂ Event.SameCount after after') ∧
          (∀ q n, List.Forall₂ (Event.SameCountOn q) (after.take n) (after'.take n) →
            MatchAlong (Event.SameAnswerOn q) (.ofChange id nameAnonymous stem) (after.take n)
              (after'.take n))) := by
  obtain ⟨history, hruns, hsteps, hanswers⟩ := run_eq_ok_iff.1 h
  refine ⟨history, hruns, hsteps, hanswers, fun q => ?_, fun Q _ => ?_, ?_⟩
  · obtain ⟨hnumbers, hdrawn⟩ := hruns.numbersFrom_eq q
    have hzero : start.drawn q = 0 := rfl
    rw [hzero, Nat.zero_add] at hnumbers hdrawn
    rw [hdrawn]
    exact hnumbers
  · obtain ⟨history', s'', hruns', hkept, hanswers'⟩ :=
      hruns.follow .start .start (Follows.refl (Q := Q) start)
    exact ⟨s'', run_eq_ok_iff.2 ⟨history', hruns', hkept, hanswers'⟩⟩
  · rintro before after e id nameAnonymous stem rfl hstep
    obtain ⟨after', s'', hruns', hcounterparts, hsame⟩ := hruns.without_change hstep
    refine ⟨after', s'', hruns', hcounterparts, ?_, hsame⟩
    rintro rfl
    exact hcounterparts.sameCount (OptionChanges.nameAnonymous_ofChange id stem)

/-- A copy that is made before the change comes to its source stays as it is, and a slot that is
filled from it is no longer changed. -/
example :
    let c := [Step.copyBuilder "x" "y", .copyBuilder "a" "x", .copyBuilder "y" "a"].foldl
      Step.carry (.ofChange "a" (some false) none)
    (c "y", c "x", c "a") = (.none, ⟨true, false⟩, .none) := by decide

/-- A builder `a` on a sequence of its own, and a copy `b` of it. -/
def twoBuilders : List Step := [.newCounter "c", .newBuilder "c" "a", .copyBuilder "a" "b"]

/-- An anonymous member. -/
def anonymousNull : Tree String :=
  .node "NamedType" [.tree (.node "Type" [.tree (.node "SimpleType" [.token "NULL"])])]

set_option maxRecDepth 8192 in
/-- The build by `a` fails and draws nothing, and the build by `b` draws the first number. The change
of `a` does not come to `b`, which has been copied before. -/
theorem sequences_of_run_failed_build : ∃ before e after,
    (before ++ e :: after).map Event.step = twoBuilders ++
      [.configure "a" (some false) none, .buildNode "a" anonymousNull,
        .buildNode "b" anonymousNull] ∧
      numbersFrom 1 (before ++ e :: after) = [1] ∧
      ∃ after' s'', start.Runs (before ++ after') s'' ∧
        MatchAlong Event.Counterpart (.ofChange "a" (some false) none) after after' := by
  obtain ⟨history, -, hsteps, -, hnumbers, -, hchange⟩ := sequences_of_run (twoBuilders ++
    [.configure "a" (some false) none, .buildNode "a" anonymousNull,
      .buildNode "b" anonymousNull]) _ _ rfl
  obtain ⟨before, rest, rfl, -, hrest⟩ := List.map_eq_append_iff.1 hsteps
  obtain ⟨e, after, rfl, hstep, -⟩ := List.map_eq_cons_iff.1 hrest
  obtain ⟨after', s'', hruns, hcounterparts, -⟩ := hchange before after e _ _ _ rfl hstep
  exact ⟨before, e, after, hsteps, hnumbers 1, after', s'', hruns, hcounterparts⟩

/-- A change of options after the steps `before` makes no difference to the steps `after` that are
not on the changed builder. -/
def UnaffectedBy (id : String) (nameAnonymous : Option Bool) (stem : Option String)
    (before after : List Step) : Prop :=
  ∀ answers answers' s s',
    start.run (before ++ .configure id nameAnonymous stem :: after) = .ok (answers, s) →
    start.run (before ++ after) = .ok (answers', s') →
    ∀ i st, after[i]? = some st → st.builderSlot? ≠ some id →
      answers[before.length + 1 + i]? = answers'[before.length + i]?

set_option maxRecDepth 8192 in
/-- With the change, the build by `a` leaves the first number to `b`. And a copy that is made after
the change has the changed options. -/
theorem not_unaffectedBy :
    ¬UnaffectedBy "a" (some false) none twoBuilders
      [.buildNode "a" anonymousNull, .buildNode "b" anonymousNull] ∧
    ¬UnaffectedBy "a" (some false) none twoBuilders
      [.copyBuilder "a" "b", .buildNode "b" anonymousNull] := by
  let named (identifier : String) : Answer :=
    .node (.ok (.namedType identifier (.simple "NULL" none)))
  let failed : Answer := .node (.error (.malformed .namedType .unnamedMember))
  constructor
  · intro h
    have heq : some (named "unnamed1") = some (named "unnamed2") :=
      h _ _ _ _ rfl rfl 1 _ rfl (by decide)
    simp [named] at heq
  · intro h
    have heq : some failed = some (named "unnamed1") := h _ _ _ _ rfl rfl 1 _ rfl (by decide)
    simp [named, failed] at heq

end Session

end AsnModel
