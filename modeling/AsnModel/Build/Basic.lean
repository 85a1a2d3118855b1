import AsnModel.Build.Error
import AsnModel.Model.Node

/-!
# Building models

Building reads its options, may fail, and draws numbers from a sequence in order to name anonymous
members. A number that has been drawn stays drawn if the build fails later.

## Main definitions

* `BuildOptions` — what becomes of anonymous members.
* `BuildM` — computations that build a part of a model.
* `BuildM.runFrom` — run one of them on a sequence that has given out some numbers already.
* `BuildM.placeholder` — the next generated name.
-/

namespace AsnModel

/-- What becomes of members without an identifier. -/
structure BuildOptions where
  /-- Give an anonymous member a generated name. Otherwise an anonymous member is an error. -/
  nameAnonymous : Bool := true
  /-- What generated names begin with. -/
  stem : String := "unnamed"
deriving DecidableEq

/-- A computation that builds a part of a model. Its state counts the numbers that have been drawn
for generated names. -/
abbrev BuildM := ReaderT BuildOptions (ExceptT BuildError (StateM Nat))

namespace BuildM

/-- Run a build with the given options, after `drawn` numbers of the sequence. The outcome comes
with the count of numbers drawn by then, also when the build fails. -/
def runFrom {α : Type} (build : BuildM α) (options : BuildOptions) (drawn : Nat) :
    Except BuildError α × Nat :=
  (build.run options).run.run drawn

/-- The name made of a stem and a number. -/
def placeholderName (stem : String) (number : Nat) : String := stem ++ toString number

/-- Draw the next number, beginning with 1, and make a name of it. -/
def placeholder : BuildM String := do
  let number := (← get) + 1
  set number
  return placeholderName (← read).stem number

end BuildM

end AsnModel
