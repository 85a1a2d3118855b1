import AsnModel.Text.Numeral

/-!
# Values

Values as they are written in a module. Numbers, digits and names are kept as text.

## Main definitions

* `QualifiedName` — a name, possibly with the module that defines it.
* `ArcForm` — one component of an object identifier.
* `ValueForm`, `Value` — a value that has a structure of its own, and any value.
* `render` of each of them — its text.
* `ObjectIdentifier.registeredArcs` — the names of arcs whose numbers are fixed by registration.
* `ArcForm.arc?`, `ObjectIdentifier.numericArcs` — the number of one component, and the numbers of
  all components, if all are known.
-/

namespace AsnModel

/-- A reference to a name, possibly qualified by the module that defines it. -/
structure QualifiedName where
  qualifier : Option String
  name : String
deriving DecidableEq

/-- One component of an object identifier. -/
inductive ArcForm where
  /-- A symbolic arc: a registered name or a defined value. -/
  | name (name : String)
  /-- A number. -/
  | number (value : String)
  /-- A name with its number, as in `member-body(2)`. -/
  | nameAndNumber (name value : String)
deriving DecidableEq

/-- A value with a structure of its own. -/
inductive ValueForm where
  /-- A reference to a value that an assignment defines. -/
  | reference (name : QualifiedName)
  /-- An object identifier. -/
  | objectIdentifier (components : List ArcForm)
  /-- The digits of a binary string. -/
  | binaryString (digits : String)
  /-- The digits of a hexadecimal string. -/
  | hexString (digits : String)
deriving DecidableEq

/-- Any value. -/
inductive Value where
  /-- A raw literal, such as `5` or `TRUE`. -/
  | literal (text : String)
  | form (form : ValueForm)
deriving DecidableEq

/-- The text of a reference: a qualifier is followed by a full stop. -/
def QualifiedName.render (n : QualifiedName) : String :=
  match n.qualifier with
  | some qualifier => qualifier ++ "." ++ n.name
  | none => n.name

/-- The text of an object identifier component. -/
def ArcForm.render : ArcForm → String
  | .name text => text
  | .number text => text
  | .nameAndNumber arc value => arc ++ "(" ++ value ++ ")"

/-- The text of a structured value. -/
def ValueForm.render : ValueForm → String
  | .reference name => name.render
  | .objectIdentifier components =>
    "\x7b" ++ " ".intercalate (components.map ArcForm.render) ++ "\x7d"
  | .binaryString digits => "'" ++ digits ++ "'B"
  | .hexString digits => "'" ++ digits ++ "'H"

/-- The text of a value. -/
def Value.render : Value → String
  | .literal text => text
  | .form f => f.render

/-! ## Numbers of object identifier arcs -/

namespace ObjectIdentifier

/-- The names that are known without looking at any value assignment, and their numbers: the roots,
and then the names below `ccitt`, `iso` and `joint-iso-ccitt`. Names below different roots may share
a number. -/
def registeredArcs : List (String × Nat) :=
  [("ccitt", 0), ("iso", 1), ("joint-iso-ccitt", 2),
   ("recommendation", 0), ("question", 1), ("administration", 2), ("network-operator", 3),
   ("standard", 0), ("registration-authority", 1), ("member-body", 2),
   ("identified-organization", 3),
   ("country", 16), ("registration-procedures", 17)]

/-- The number registered for an arc name. -/
def registeredArc? (name : String) : Option Nat := registeredArcs.lookup name

end ObjectIdentifier

/-- The number of a component: the one that is written, which has to fit into 64 bits, or else the
one registered for its name. -/
def ArcForm.arc? : ArcForm → Option Nat
  | .name text => ObjectIdentifier.registeredArc? text
  | .number text => Text.uint64? text
  | .nameAndNumber _ text => Text.uint64? text

/-- The numbers of all components, if every one is known. -/
def ObjectIdentifier.numericArcs (components : List ArcForm) : Option (List Nat) :=
  components.mapM ArcForm.arc?

end AsnModel
