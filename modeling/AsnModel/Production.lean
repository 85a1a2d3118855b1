/-!
# Grammar productions

The productions of the ASN.1 grammar that can label a node of a parse tree, and their names.

## Main definitions

* `Production` — the productions, in the order in which the grammar lists them.
* `Production.name`, `Production.ofName?` — the name of a production, and back.
* `Production.sort` — a list of productions in the order of the grammar.
-/

namespace AsnModel

/-- A production of the grammar: of modules and assignments first, then of types and constraints,
of members and named values, and of values. -/
inductive Production where
  | moduleDefinition | moduleReference | moduleBody | exports | imports | assignmentList
  | typeAssignment | valueAssignment
  | type | simpleType | referencedType | taggedType | tag | tagClass | tagClassNumber
  | sequenceType | setType | choiceType | sequenceOfType | setOfType | valueListType
  | bitStringType | constraint | sizeConstraint
  | componentType | componentTypeOptional | componentTypeDefault | componentTypeComponentsOf
  | namedType | namedValue | identifier | extensionMarker
  | value | referencedValue | objectIdentifierValue | nameForm | numberForm | nameAndNumberForm
  | binaryStringValue | hexStringValue
deriving DecidableEq

namespace Production

/-- Every production, in the order of the grammar. -/
def all : List Production :=
  [.moduleDefinition, .moduleReference, .moduleBody, .exports, .imports, .assignmentList,
   .typeAssignment, .valueAssignment, .type, .simpleType, .referencedType, .taggedType, .tag,
   .tagClass, .tagClassNumber, .sequenceType, .setType, .choiceType, .sequenceOfType,
   .setOfType, .valueListType, .bitStringType, .constraint, .sizeConstraint, .componentType,
   .componentTypeOptional, .componentTypeDefault, .componentTypeComponentsOf, .namedType,
   .namedValue, .identifier, .extensionMarker, .value, .referencedValue,
   .objectIdentifierValue, .nameForm, .numberForm, .nameAndNumberForm, .binaryStringValue,
   .hexStringValue]

/-- The name of a production, as it labels the nodes of a parse tree. -/
def name : Production → String
  | .moduleDefinition => "ModuleDefinition"
  | .moduleReference => "ModuleReference"
  | .moduleBody => "ModuleBody"
  | .exports => "Exports"
  | .imports => "Imports"
  | .assignmentList => "AssignmentList"
  | .typeAssignment => "TypeAssignment"
  | .valueAssignment => "ValueAssignment"
  | .type => "Type"
  | .simpleType => "SimpleType"
  | .referencedType => "ReferencedType"
  | .taggedType => "TaggedType"
  | .tag => "Tag"
  | .tagClass => "TagClass"
  | .tagClassNumber => "TagClassNumber"
  | .sequenceType => "SequenceType"
  | .setType => "SetType"
  | .choiceType => "ChoiceType"
  | .sequenceOfType => "SequenceOfType"
  | .setOfType => "SetOfType"
  | .valueListType => "ValueListType"
  | .bitStringType => "BitStringType"
  | .constraint => "Constraint"
  | .sizeConstraint => "SizeConstraint"
  | .componentType => "ComponentType"
  | .componentTypeOptional => "ComponentTypeOptional"
  | .componentTypeDefault => "ComponentTypeDefault"
  | .componentTypeComponentsOf => "ComponentTypeComponentsOf"
  | .namedType => "NamedType"
  | .namedValue => "NamedValue"
  | .identifier => "Identifier"
  | .extensionMarker => "ExtensionMarker"
  | .value => "Value"
  | .referencedValue => "ReferencedValue"
  | .objectIdentifierValue => "ObjectIdentifierValue"
  | .nameForm => "NameForm"
  | .numberForm => "NumberForm"
  | .nameAndNumberForm => "NameAndNumberForm"
  | .binaryStringValue => "BinaryStringValue"
  | .hexStringValue => "HexStringValue"

/-- The production of a given name, which has to match exactly. -/
def ofName? (name : String) : Option Production := all.find? fun p => p.name = name

@[simp] theorem ofName?_name (p : Production) : ofName? p.name = some p := by cases p <;> rfl

/-- No two productions share a name. -/
theorem name_injective {p q : Production} (h : p.name = q.name) : p = q :=
  Option.some.inj (by rw [← ofName?_name p, h, ofName?_name])

/-- The position of a production in the grammar. -/
def rank (p : Production) : Nat := all.idxOf p

/-- The productions of a list, repetitions included, in the order of the grammar. -/
def sort (ps : List Production) : List Production := ps.mergeSort fun p q => p.rank ≤ q.rank

end Production

end AsnModel
