import AsnModel.Tree.Basic

/-!
# Errors of model building

A parse tree is expected to be valid for the grammar. An error therefore tells where the tree and
the grammar disagree: at a node whose label no model node is built from, or at a node whose
elements do not have the shape that its production guarantees. The first of these shows as soon as
the labels, which are handed over as text, are read as productions.

## Main definitions

* `Defect` — the ways in which the elements of a node can be wrong.
* `BuildError` — a defect together with the production of the node being read, or an unknown
  label.
* `Defect.message`, `BuildError.message` — their wording.
* `Production.recognize`, `ParseTree.recognize` — read one label, or those of a whole tree.
-/

namespace AsnModel

/-- What is wrong with the elements of a parse node. Elements are counted from zero. -/
inductive Defect where
  /-- The element is absent or not a node, where one of the given productions was expected. -/
  | expectedNode (index : Nat) (expected : List Production)
  /-- The element is a node, but not of one of the expected productions. -/
  | wrongNode (index : Nat) (expected : List Production) (got : Production)
  /-- The element is absent or not a token. -/
  | expectedToken (index : Nat)
  /-- The element is absent or not a list. -/
  | expectedList (index : Nat)
  /-- The element stands behind the last one that the production has. -/
  | trailingElement (index : Nat)
  /-- A node below builds, but to something that cannot stand in its place. -/
  | wrongCategory (expected : String) (got : Production)
  /-- A member has no identifier, and the builder does not name it. -/
  | unnamedMember
  /-- A named value takes the number after one that is not an integer. -/
  | nonIntegerValue (identifier previous : String)
  /-- A named value takes the number after the largest one. -/
  | valueOverflow (identifier previous : String)
deriving DecidableEq

/-- Why no model could be built from a parse tree. -/
inductive BuildError where
  /-- No model node is built from a node labelled `kind`. -/
  | unknownKind (kind : String)
  /-- A node of the given production has a defect. -/
  | malformed (production : Production) (defect : Defect)
deriving DecidableEq

/-- The production's name between backticks, as messages quote it. -/
def Production.quoted (p : Production) : String := "`" ++ p.name ++ "`"

/-- The accepted productions in words: any production, this one, or one of these. -/
def Production.describe : List Production → String
  | [] => "anything"
  | [p] => p.quoted
  | ps => "one of " ++ ", ".intercalate (ps.map quoted)

/-- The wording of a defect. -/
def Defect.message : Defect → String
  | .expectedNode index expected =>
    "expected " ++ Production.describe expected ++ " node at element " ++ toString index
  | .wrongNode index expected got =>
    "expected " ++ Production.describe expected ++ " node at element " ++ toString index ++
      ", got " ++ got.quoted
  | .expectedToken index => "expected token at element " ++ toString index
  | .expectedList index => "expected node list at element " ++ toString index
  | .trailingElement index => "unexpected trailing element " ++ toString index
  | .wrongCategory expected got => got.quoted ++ " cannot be used as " ++ expected
  | .unnamedMember => "anonymous member not permitted"
  | .nonIntegerValue identifier previous =>
    "cannot number `" ++ identifier ++ "` after non-integer value `" ++ previous ++ "`"
  | .valueOverflow identifier previous =>
    "cannot number `" ++ identifier ++ "` after `" ++ previous ++ "` without overflow"

/-- The wording of a build error. -/
def BuildError.message : BuildError → String
  | .unknownKind kind => "unknown node kind `" ++ kind ++ "`"
  | .malformed production defect =>
    "malformed " ++ production.quoted ++ " node: " ++ defect.message

/-- The production of the given name. -/
def Production.recognize (name : String) : Except BuildError Production :=
  match ofName? name with
  | some p => .ok p
  | none => .error (.unknownKind name)

namespace ParseTree

/-- Read every label of a tree. If several are unknown, the first of them in post-order is
reported. -/
def recognize (t : Tree String) : Except BuildError ParseTree := t.relabelM Production.recognize

end ParseTree

end AsnModel
