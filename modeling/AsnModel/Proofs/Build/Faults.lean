import AsnModel.Proofs.Build.Draws
import AsnModel.Proofs.Build.Numbering
import AsnModel.Proofs.Build.Yields
import AsnModel.Proofs.Model.MemberNames
import Mathlib.Logic.Relation

/-!
# Faults of parse trees

What the errors of a build say about the parse tree, said of the tree itself.

## Main definitions

* `ParseTree.Within` — a tree stands in another one, at any depth.
* `ParseTree.HasDefect` — the elements of a tree are wrong in the way that a defect tells.
* `ParseTree.Explains` — something in the tree is wrong in the way that an error tells.
-/

namespace AsnModel

/-- The productions that only have a meaning inside others. -/
def Production.auxiliary : List Production :=
  [.moduleReference, .moduleBody, .exports, .imports, .assignmentList, .tag, .tagClass,
   .tagClassNumber, .constraint, .componentTypeOptional, .componentTypeDefault,
   .componentTypeComponentsOf, .identifier, .value]

/-- The places that the parts of a module are built for. -/
inductive Slot.IsPlace : {α : Type} → Slot α → Prop where
  | typeDecl : IsPlace Slot.typeDecl
  | assignment : IsPlace Slot.assignment
  | value : IsPlace Slot.value
  | member : IsPlace Slot.member
  | listItem : IsPlace Slot.listItem
  | arc : IsPlace Slot.arc

namespace ParseTree

/-- The tree `u` is `t` itself, or is held by a tree in `t`, as an element or in a list. -/
def Within (u t : ParseTree) : Prop := Relation.ReflTransGen (fun t u => u ∈ t.held) t u

variable (o : BuildOptions)

/-- The tree is built by itself, however many numbers have been drawn, to a node of the production
`got`, which does not fit the place of the given description. -/
def Misfits (t : ParseTree) (description : String) (got : Production) : Prop :=
  ∃ (α : Type) (slot : Slot α), slot.IsPlace ∧ slot.description = description ∧
    ∀ drawn, ∃ n drawn', t.build.runFrom o drawn = (.ok n, drawn') ∧ n.production = got ∧
      slot.accept n = none

/-- The tree lists named values. One of them is `identifier`, without a number, and the named value
before it has the number `previous`. -/
def NumbersAfter (t : ParseTree) (identifier previous : String) : Prop :=
  t.label = .valueListType ∧ ∃ us items, t.elements[1]? = some (.list us) ∧
    List.Forall₂ (fun (u : ParseTree) (item : ListItem (Option String)) => ∀ drawn, ∃ drawn',
      u.build.runFrom o drawn = (.ok item.node, drawn')) us items ∧
    TakesNumberAfter none items identifier previous

/-- The elements of the tree have the defect. -/
def HasDefect (t : ParseTree) : Defect → Prop
  | .expectedNode index _ => ∀ u, t.elements[index]? ≠ some (.tree u)
  | .wrongNode index expected got =>
    expected ≠ [] ∧ got ∉ expected ∧ ∃ u : ParseTree, t.elements[index]? = some (.tree u) ∧
      u.label = got
  | .expectedToken index => ∀ text, t.elements[index]? ≠ some (.token text)
  | .expectedList index => ∀ us, t.elements[index]? ≠ some (.list us)
  | .trailingElement index => index < t.elements.length
  | .wrongCategory description got => ∃ u ∈ t.held, u.Misfits o description got
  | .unnamedMember =>
    t.label = .namedType ∧ (∃ u : ParseTree, t.first? = some u ∧ u.label = .type) ∧
      o.nameAnonymous = false
  | .nonIntegerValue identifier previous =>
    t.NumbersAfter o identifier previous ∧ Text.int64? previous = none
  | .valueOverflow identifier previous =>
    t.NumbersAfter o identifier previous ∧ Text.int64? previous = some Text.maxInt64

/-- Something in the tree is as the error tells: a tree of the unknown kind, or one that has the
production and the defect. -/
def Explains (t : ParseTree) : BuildError → Prop
  | .unknownKind kind =>
    ∃ u : ParseTree, u.Within t ∧ u.label ∈ Production.auxiliary ∧ u.label.name = kind
  | .malformed production defect =>
    ∃ u : ParseTree, u.Within t ∧ u.label = production ∧ u.HasDefect o defect

/-- As `ParseTree.Explains`, of a tree that should be a module. -/
def ExplainsModule (t : ParseTree) (e : BuildError) : Prop :=
  t.Explains o e ∨ t.label ≠ .moduleDefinition ∧
    e = .malformed t.label (.wrongCategory Slot.module.description t.label)

variable {o} {t u : ParseTree}

theorem within_of_mem_held (hu : u ∈ t.held) : u.Within t := .single hu

theorem Within.trans {w : ParseTree} (hw : w.Within u) (hu : u.Within t) : w.Within t :=
  Relation.ReflTransGen.trans hu hw

theorem Within.sizeOf_le (h : u.Within t) : sizeOf u ≤ sizeOf t := by
  induction h with
  | refl => exact Nat.le_refl _
  | tail _ hu ih => exact Nat.le_trans (Nat.le_of_lt (sizeOf_lt_of_mem_held hu)) ih

theorem Explains.of_within {e : BuildError} (h : u.Explains o e) (hu : u.Within t) :
    t.Explains o e := by
  cases e with
  | unknownKind kind =>
    obtain ⟨w, hw, h⟩ := h
    exact ⟨w, hw.trans hu, h⟩
  | malformed production defect =>
    obtain ⟨w, hw, h⟩ := h
    exact ⟨w, hw.trans hu, h⟩

end ParseTree

end AsnModel
