import AsnModel.Model.Equality

/-!
# Modules

A module is a named list of type and value assignments.

## Main definitions

* `Assignment`, `Module` — a definition, and a module with its definitions in source order.
* `Assignment.render`, `Module.render` — their text.
-/

namespace AsnModel

/-- A definition at the top level of a module. -/
inductive Assignment where
  /-- `Name ::= Type`. -/
  | type (name : String) (type : TypeDecl)
  /-- `name Type ::= value`. -/
  | value (name : String) (type : TypeDecl) (value : Value)
deriving DecidableEq

/-- A module with all its assignments, in source order. -/
structure Module where
  name : String
  assignments : List Assignment
deriving DecidableEq

namespace Assignment

/-- The name that an assignment defines. -/
def name : Assignment → String
  | .type n _ => n
  | .value n _ _ => n

/-- The type that is assigned, or the type of the assigned value. -/
def typeDecl : Assignment → TypeDecl
  | .type _ t => t
  | .value _ t _ => t

/-- The declaration of a type assignment. -/
def type? : Assignment → Option TypeDecl
  | .type _ t => some t
  | .value _ _ _ => none

/-- The text of an assignment. -/
def render : Assignment → String
  | .type n t => n ++ " ::= " ++ t.render
  | .value n t v => n ++ " " ++ t.render ++ " ::= " ++ v.render

end Assignment

namespace Module

/-- The names of the type assignments, in source order. -/
def typeNames (m : Module) : List String :=
  m.assignments.filterMap fun
    | .type n _ => some n
    | .value _ _ _ => none

/-- The names of the value assignments, in source order. -/
def valueNames (m : Module) : List String :=
  m.assignments.filterMap fun
    | .type _ _ => none
    | .value n _ _ => some n

/-- The text of a module, each line ending with a line feed. -/
def render (m : Module) : String :=
  String.join (([m.name ++ " DEFINITIONS ::=", "BEGIN"] ++ m.assignments.map Assignment.render ++
    ["END"]).map (· ++ "\n"))

end Module

end AsnModel
