import AsnModel.Build.Rule
import AsnModel.OrderedMap

/-!
# Sessions

A session holds builders and the sequences that their generated names are numbered from. Handles
to a sequence may be copied, and all copies draw from the one sequence. A builder has options of its
own and a handle to a sequence.

## Main definitions

* `Session`, `Session.start` — the slots of a session, and a session with none.
* `Step`, `Answer` — what can be done in a session, and what comes of it.
* `SessionError` — why a session ends before its last step.
* `Session.step`, `Session.run` — do one step, or several.
-/

namespace AsnModel

/-- The identity of a sequence. Sequences are counted in the order in which they are made; the first
one is there from the start. -/
abbrev SequenceId := Nat

/-- A builder: its options, and the sequence that it names anonymous members from. -/
structure Builder where
  options : BuildOptions
  sequence : SequenceId

/-- A session. -/
structure Session where
  /-- The number of sequences that have been made. -/
  sequences : Nat
  /-- For each sequence, the count of numbers drawn from it. -/
  drawn : SequenceId → Nat
  /-- The handles to sequences, by slot. -/
  counters : OrderedMap String SequenceId
  /-- The builders, by slot. -/
  builders : OrderedMap String Builder

/-- One step of a session. Slots are named by text. -/
inductive Step where
  /-- Make a sequence, with a handle in slot `id`. -/
  | newCounter (id : String)
  /-- Copy the handle in slot `source` to slot `id`. -/
  | copyCounter (source id : String)
  /-- Draw a number. -/
  | draw (id : String)
  /-- Draw a number and make a name of it. -/
  | drawName (id stem : String)
  /-- Make a builder with default options on a sequence. -/
  | newBuilder (counter id : String)
  /-- Copy a builder. The copy has options of its own and the same sequence. -/
  | copyBuilder (source id : String)
  /-- Change the options that are given. -/
  | configure (id : String) (nameAnonymous : Option Bool) (stem : Option String)
  /-- Build a node from a parse tree as handed over. -/
  | buildNode (id : String) (tree : Tree String)
  /-- Build modules from parse trees as handed over. -/
  | buildForest (id : String) (trees : List (Tree String))
  /-- Build a node with default options on the sequence that is there from the start. -/
  | buildShared (tree : Tree String)

/-- What comes of a step. -/
inductive Answer where
  | done
  | number (n : Nat)
  | name (text : String)
  | options (options : BuildOptions)
  | node (result : Except BuildError Node)
  | forest (result : Except BuildError (List Module))
  /-- Whether the build succeeded, and the count of numbers that it drew. -/
  | shared (succeeded : Bool) (count : Nat)

/-- Why a session cannot go on. A failed build is an answer, and does not end the session. -/
inductive SessionError where
  /-- A step reads a slot that is empty. -/
  | emptySlot (id : String)
  /-- The tree of a shared build is not a parse tree. -/
  | unrecognized (error : BuildError)
deriving DecidableEq

namespace Session

/-- The sequence that is there from the start. -/
def sharedSequence : SequenceId := 0

/-- A session with empty slots. -/
def start : Session where
  sequences := 1
  drawn _ := 0
  counters := .empty
  builders := .empty

/-- Set the count of numbers drawn from a sequence. -/
def setDrawn (s : Session) (sequence : SequenceId) (count : Nat) : Session :=
  { s with drawn := fun i => if i = sequence then count else s.drawn i }

/-- Draw the next number of a sequence. -/
def drawNumber (s : Session) (sequence : SequenceId) : Nat × Session :=
  let number := s.drawn sequence + 1
  (number, s.setDrawn sequence number)

/-- Run a build on a sequence, which keeps the numbers that were drawn, whatever the outcome. -/
def build {α : Type} (s : Session) (b : Builder) (act : BuildM α) : Except BuildError α × Session :=
  let (result, count) := act.runFrom b.options (s.drawn b.sequence)
  (result, s.setDrawn b.sequence count)

/-- Build what is recognised. Where nothing is, no number is drawn. -/
def buildRecognized {α β : Type} (s : Session) (b : Builder) (input : Except BuildError α)
    (act : α → BuildM β) : Except BuildError β × Session :=
  match input with
  | .ok a => s.build b (act a)
  | .error e => (.error e, s)

/-- The sequence of the handle in a slot. -/
def counter (s : Session) (id : String) : Except SessionError SequenceId :=
  (s.counters.get? id).elim (.error (.emptySlot id)) .ok

/-- The builder in a slot. -/
def builder (s : Session) (id : String) : Except SessionError Builder :=
  (s.builders.get? id).elim (.error (.emptySlot id)) .ok

/-- Do one step. The labels of the tree of a shared build have to be known before it counts as
a build; in the other builds, an unknown label is one more way to fail. -/
def step (s : Session) : Step → Except SessionError (Answer × Session)
  | .newCounter id =>
    .ok (.done,
      { s with sequences := s.sequences + 1, counters := s.counters.insert id s.sequences })
  | .copyCounter source id => do
    let sequence ← s.counter source
    return (.done, { s with counters := s.counters.insert id sequence })
  | .draw id => do
    let (number, s) := s.drawNumber (← s.counter id)
    return (.number number, s)
  | .drawName id stem => do
    let (number, s) := s.drawNumber (← s.counter id)
    return (.name (BuildM.placeholderName stem number), s)
  | .newBuilder counter id => do
    let sequence ← s.counter counter
    return (.done, { s with builders := s.builders.insert id ⟨{}, sequence⟩ })
  | .copyBuilder source id => do
    let builder ← s.builder source
    return (.done, { s with builders := s.builders.insert id builder })
  | .configure id nameAnonymous stem => do
    let builder ← s.builder id
    let options : BuildOptions :=
      ⟨nameAnonymous.getD builder.options.nameAnonymous, stem.getD builder.options.stem⟩
    return (.options options,
      { s with builders := s.builders.insert id { builder with options } })
  | .buildNode id tree => do
    let (result, s) := s.buildRecognized (← s.builder id) (ParseTree.recognize tree)
      ParseTree.build
    return (.node result, s)
  | .buildForest id trees => do
    let (result, s) := s.buildRecognized (← s.builder id)
      (trees.mapM ParseTree.recognize) buildForest
    return (.forest result, s)
  | .buildShared tree => do
    let tree ← (ParseTree.recognize tree).mapError .unrecognized
    let (result, s') := s.build ⟨{}, sharedSequence⟩ tree.build
    return (.shared result.isOk (s'.drawn sharedSequence - s.drawn sharedSequence), s')

/-- Do several steps, one after the other. -/
def run (s : Session) : List Step → Except SessionError (List Answer × Session)
  | [] => .ok ([], s)
  | step :: steps => do
    let (answer, s) ← s.step step
    let (answers, s) ← s.run steps
    return (answer :: answers, s)

end Session

end AsnModel
