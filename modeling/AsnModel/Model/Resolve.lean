import AsnModel.Model.Module
import AsnModel.OrderedMap

/-!
# Types of a module

The types that a module defines, by name, and the declarations that references to them stand for.

## Main definitions

* `Module.typeIndex` — where each type of a module is assigned.
* `Module.userTypes`, `Module.userType?` — the declarations of the types.
* `Module.resolve` — follow references up to a declaration that is not a reference.
* `ResolveError` — why a reference has no such declaration.
-/

namespace AsnModel

/-- Why a type reference cannot be resolved within a module. -/
inductive ResolveError where
  /-- The module does not define a type of this name. -/
  | unresolved (name : String)
  /-- Following the references of this chain leads back to the name it ends with. -/
  | recursive (chain : List String)
deriving DecidableEq

/-- The wording of a resolve error. -/
def ResolveError.message : ResolveError → String
  | .unresolved name => "unresolved type reference `" ++ name ++ "`"
  | .recursive chain => "recursive type alias " ++ " -> ".intercalate chain

namespace Module

/-- The index after one more assignment, at the given position. -/
def indexAssignment (index : OrderedMap String Nat) : Assignment × Nat → OrderedMap String Nat
  | (.type name _, position) => index.insert name position
  | (.value _ _ _, _) => index

/-- The position of the assignment of each type, in the order in which the names are first
assigned. A later assignment of a name replaces an earlier one. -/
def typeIndex (m : Module) : OrderedMap String Nat :=
  m.assignments.zipIdx.foldl indexAssignment .empty

/-- The declaration of the type that is assigned at a position. -/
def typeAt? (m : Module) (position : Nat) : Option TypeDecl :=
  m.assignments[position]?.bind Assignment.type?

/-- The types that a module defines, with their declarations. -/
def userTypes (m : Module) : List (String × TypeDecl) :=
  m.typeIndex.entries.filterMap fun (name, position) =>
    (m.typeAt? position).map fun type => (name, type)

/-- The declaration of the type of a given name. -/
def userType? (m : Module) (name : String) : Option TypeDecl :=
  (m.typeIndex.get? name).bind m.typeAt?

theorem mem_keys_of_userType? {m : Module} {name : String} {t : TypeDecl}
    (h : m.userType? name = some t) : name ∈ m.typeIndex.keys := by
  cases hi : m.typeIndex.get? name with
  | none => simp [userType?, hi] at h
  | some position =>
    exact List.mem_map.2 ⟨_, (m.typeIndex.get?_eq_some_iff name position).1 hi, rfl⟩

/-- The types of a module whose names are not in `chain`. -/
def unvisited (m : Module) (chain : List String) : List String :=
  m.typeIndex.keys.filter fun name => name ∉ chain

theorem length_unvisited_lt {m : Module} {chain : List String} {name : String}
    (hname : name ∈ m.typeIndex.keys) (hchain : name ∉ chain) :
    (m.unvisited (chain ++ [name])).length < (m.unvisited chain).length := by
  have h : m.unvisited (chain ++ [name]) = (m.unvisited chain).filter (· ≠ name) := by
    simp [unvisited, List.filter_filter, and_comm]
  rw [h]
  exact List.length_filter_lt_length_iff_exists.2
    ⟨name, by simp [unvisited, hname, hchain], by simp⟩

/-- Follow references, after those of `chain`. Only the name of a reference counts, and not the
module it is qualified by. -/
def resolveAfter (m : Module) (chain : List String) (t : TypeDecl) :
    Except ResolveError TypeDecl :=
  match t with
  | .reference ⟨_, name⟩ =>
    if _hchain : name ∈ chain then .error (.recursive (chain ++ [name]))
    else
      match _htype : m.userType? name with
      | none => .error (.unresolved name)
      | some type => m.resolveAfter (chain ++ [name]) type
  | t => .ok t
termination_by (m.unvisited chain).length
decreasing_by exact length_unvisited_lt (mem_keys_of_userType? _htype) _hchain

theorem resolveAfter_reference (m : Module) (chain : List String) (name : QualifiedName) :
    m.resolveAfter chain (.reference name) =
      if name.name ∈ chain then .error (.recursive (chain ++ [name.name]))
      else
        match m.userType? name.name with
        | none => .error (.unresolved name.name)
        | some type => m.resolveAfter (chain ++ [name.name]) type := by
  rw [resolveAfter]
  split
  · rfl
  · split <;> simp_all

theorem resolveAfter_of_not_isReference (m : Module) (chain : List String) {t : TypeDecl}
    (h : t.isReference = false) : m.resolveAfter chain t = .ok t := by
  cases t <;> simp_all [resolveAfter, TypeDecl.isReference]

/-- Follow references from a declaration on, up to one that is not a reference. -/
def resolve (m : Module) (t : TypeDecl) : Except ResolveError TypeDecl := m.resolveAfter [] t

end Module

end AsnModel
