import AsnModel.Model.Value

/-!
# Type declarations

## Main definitions

* `TypeDecl` — a type as it is declared.
* `Member`, `Component` — what can stand between the braces of a SEQUENCE, SET or CHOICE.
* `ListItem` — what can stand in an enumeration or a list of named bits.
* `Bounds`, `TypeTag`, `Presence` — the smaller parts of a declaration.
* `TypeDecl.typeName` — the name under which a type is known.
* `TypeDecl.render` — the text of a declaration.
-/

namespace AsnModel

/-- The types that list members between braces. -/
inductive ConstructedKind where
  | sequence | set | choice
deriving DecidableEq

/-- The types that repeat one element type. -/
inductive CollectionKind where
  | sequenceOf | setOf
deriving DecidableEq

/-- The lowest and the highest value of a range. -/
structure Bounds where
  min : Value
  max : Value
deriving DecidableEq

/-- An explicit tag. The class is UNIVERSAL, APPLICATION or PRIVATE, and the tag is context
specific without one. The number is kept as written, since it may be a defined value. -/
structure TypeTag where
  className : Option String
  number : String
deriving DecidableEq

/-- Whether a component has to be present. -/
inductive Presence where
  | required
  | optional
  | default (value : Value)
deriving DecidableEq

/-- One item of a list of named values, each of which carries a `ν`. -/
inductive ListItem (ν : Type) where
  /-- An identifier with its value. -/
  | named (identifier : String) (value : ν)
  /-- The extension marker `...`. -/
  | extension
deriving DecidableEq

/-- A component of a SEQUENCE or SET, with type declarations in `τ`. -/
inductive Component (τ : Type) where
  /-- A component of its own. -/
  | named (identifier : String) (type : τ) (presence : Presence)
  /-- The components of another type, included in place. -/
  | componentsOf (type : τ)
deriving DecidableEq

/-- One member of a SEQUENCE, SET or CHOICE, with type declarations in `τ`. -/
inductive Member (τ : Type) where
  | component (component : Component τ)
  /-- An alternative of a CHOICE. -/
  | alternative (identifier : String) (type : τ)
  /-- The extension marker `...`. -/
  | extension
deriving DecidableEq

/-- A type declaration. -/
inductive TypeDecl where
  /-- SEQUENCE, SET or CHOICE, with the keyword as written. -/
  | constructed (kind : ConstructedKind) (keyword : String) (members : List (Member TypeDecl))
  /-- SEQUENCE OF or SET OF, possibly with a size. -/
  | collection (kind : CollectionKind) (size : Option Bounds) (element : TypeDecl)
  /-- A type with an explicit tag. It is implicit if it is declared so. -/
  | tagged (tag : TypeTag) (implicit : Bool) (type : TypeDecl)
  /-- A builtin type, possibly with a range. -/
  | simple (name : String) (range : Option Bounds)
  /-- A reference to a type that an assignment defines. -/
  | reference (name : QualifiedName)
  /-- ENUMERATED or INTEGER with a list of named values, if one is written. Every named value has
  a number. -/
  | valueList (name : String) (items : Option (List (ListItem String)))
  /-- BIT STRING with a list of named bits, if one is written. A bit keeps the number it is given,
  if any. -/
  | bitString (name : String) (items : Option (List (ListItem (Option String))))

namespace CollectionKind

/-- The keyword in front of `OF`. -/
def keyword : CollectionKind → String
  | .sequenceOf => "SEQUENCE"
  | .setOf => "SET"

/-- The name of the type, without a size. -/
def typeName (k : CollectionKind) : String := k.keyword ++ " OF"

end CollectionKind

namespace ListItem

variable {ν μ : Type}

/-- Apply `f` to the value of a named value. -/
def map (f : ν → μ) : ListItem ν → ListItem μ
  | .named identifier value => .named identifier (f value)
  | .extension => .extension

/-- The identifier and value of a named value. -/
def named? : ListItem ν → Option (String × ν)
  | .named identifier value => some (identifier, value)
  | .extension => none

end ListItem

namespace Component

variable {τ : Type}

/-- The type of a component. -/
def type : Component τ → τ
  | .named _ t _ => t
  | .componentsOf t => t

end Component

namespace TypeDecl

/-- The name under which a type is known. A tagged type has the name of the type it tags. -/
def typeName : TypeDecl → String
  | .constructed _ keyword _ => keyword
  | .collection kind _ _ => kind.typeName
  | .tagged _ _ type => type.typeName
  | .simple name _ => name
  | .reference name => name.name
  | .valueList name _ => name
  | .bitString name _ => name

/-- Whether a type is a bare reference to another type. -/
def isReference : TypeDecl → Bool
  | .reference _ => true
  | _ => false

end TypeDecl

/-! ## Text -/

/-- Items between braces, with blanks around them if there are any. -/
def renderBraced : List String → String
  | [] => "\x7b\x7d"
  | items => "\x7b " ++ ", ".intercalate items ++ " \x7d"

/-- The text of a value range. -/
def Bounds.render (b : Bounds) : String := "(" ++ b.min.render ++ ".." ++ b.max.render ++ ")"

/-- The text of a size. -/
def Bounds.renderSize (b : Bounds) : String := "SIZE" ++ b.render

/-- The text of a tag. -/
def TypeTag.render (t : TypeTag) : String :=
  match t.className with
  | some className => "[" ++ className ++ " " ++ t.number ++ "]"
  | none => "[" ++ t.number ++ "]"

/-- What follows the type of a component. -/
def Presence.render : Presence → String
  | .required => ""
  | .optional => " OPTIONAL"
  | .default value => " DEFAULT " ++ value.render

/-- The text of a named value. -/
def renderNamedValue (identifier : String) (value : Option String) : String :=
  match value with
  | some value => identifier ++ "(" ++ value ++ ")"
  | none => identifier

/-- The extension marker. -/
def extensionMark : String := "..."

/-- The text of one item of a list of named values. -/
def ListItem.render : ListItem (Option String) → String
  | .named identifier value => renderNamedValue identifier value
  | .extension => extensionMark

/-- The text of a type with a list of named values. The braces are left out if there are none. -/
def renderValueList (name : String) (items : Option (List (ListItem (Option String)))) : String :=
  match items.getD [] with
  | [] => name
  | items => name ++ " " ++ renderBraced (items.map ListItem.render)

mutual

/-- The text of a type declaration. -/
def TypeDecl.render : TypeDecl → String
  | .constructed _ keyword members =>
    keyword ++ " " ++ renderBraced (TypeDecl.renderMembers members)
  | .collection kind none element => kind.keyword ++ " OF " ++ element.render
  | .collection kind (some size) element =>
    kind.keyword ++ " " ++ size.renderSize ++ " OF " ++ element.render
  | .tagged tag implicit type =>
    tag.render ++ " " ++ (if implicit then "IMPLICIT " else "") ++ type.render
  | .simple name none => name
  | .simple name (some range) => name ++ " " ++ range.render
  | .reference name => name.render
  | .valueList name items => renderValueList name (items.map (·.map (·.map some)))
  | .bitString name items => renderValueList name items

/-- The text of each member of a list. -/
def TypeDecl.renderMembers : List (Member TypeDecl) → List String
  | [] => []
  | m :: ms => m.render :: TypeDecl.renderMembers ms

/-- The text of one member. -/
def Member.render : Member TypeDecl → String
  | .component c => c.render
  | .alternative identifier type => identifier ++ " " ++ type.render
  | .extension => extensionMark

/-- The text of one component. -/
def Component.render : Component TypeDecl → String
  | .named identifier type presence => identifier ++ " " ++ type.render ++ presence.render
  | .componentsOf type => "COMPONENTS OF " ++ type.render

end

end AsnModel
