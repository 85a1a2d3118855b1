import AsnModel.Model.Node

/-!
# Slots

A place in a model accepts some kinds of node and no others. A slot says which ones, and what they
are called in messages.

## Main definitions

* `Slot` — a place in a model.
* `Slot.typeDecl`, `Slot.assignment`, `Slot.value`, `Slot.member`, `Slot.listItem`, `Slot.arc`,
  `Slot.module` — the places there are.
-/

namespace AsnModel

/-- A place in a model for parts of type `α`. -/
structure Slot (α : Type) where
  /-- What the place accepts, in words. -/
  description : String
  /-- The part that a node becomes in this place, if the place accepts it. -/
  accept : Node → Option α

namespace Slot

/-- The place of a type. -/
def typeDecl : Slot TypeDecl where
  description := "a type"
  accept
    | .type t => some t
    | _ => none

/-- The place of a definition in a module. -/
def assignment : Slot Assignment where
  description := "an assignment"
  accept
    | .assignment a => some a
    | _ => none

/-- The place of a value. -/
def value : Slot Value where
  description := "a value"
  accept
    | .value f => some (.form f)
    | _ => none

/-- The place of a member between braces. -/
def member : Slot (Member TypeDecl) where
  description := "a SEQUENCE, SET or CHOICE member"
  accept
    | .component c => some (.component c)
    | .namedType identifier t => some (.alternative identifier t)
    | .extensionMarker => some .extension
    | _ => none

/-- The place of an item in a list of named values. -/
def listItem : Slot (ListItem (Option String)) where
  description := "a named value"
  accept
    | .namedValue identifier v => some (.named identifier v)
    | .extensionMarker => some .extension
    | _ => none

/-- The place of a component of an object identifier. -/
def arc : Slot ArcForm where
  description := "an object identifier component"
  accept
    | .arc a => some a
    | _ => none

/-- The place of a module. -/
def module : Slot Module where
  description := "a module"
  accept
    | .module m => some m
    | _ => none

end Slot

end AsnModel
