import AsnModel.Build.Module

/-!
# Building a model from a parse tree

Every production that has a model node of its own has a rule, which reads the elements of the parse
node. Annotating a parse tree with these rules bottom-up constructs the whole model.

## Main definitions

* `Reading.rule` — how the node of each production is read.
* `ParseTree.draft` — a parse tree with the construction of every node.
* `ParseTree.build` — build the model node of a parse tree.
* `buildModule`, `buildForest` — build one module, or one for each tree of a list.
-/

namespace AsnModel

/-- How the node of a production is read. A generic type wrapper stands for its first element.
Productions that only have a meaning inside others have no model node. -/
def Reading.rule (p : Production) : Reading Node :=
  match p with
  | .type => do (← node []).build
  | .moduleDefinition => .module <$> module
  | .typeAssignment => .assignment <$> typeAssignment
  | .valueAssignment => .assignment <$> valueAssignment
  | .sequenceType => .type <$> constructed .sequence
  | .setType => .type <$> constructed .set
  | .choiceType => .type <$> constructed .choice
  | .sequenceOfType => .type <$> collection .sequenceOf
  | .setOfType => .type <$> collection .setOf
  | .taggedType => .type <$> tagged
  | .simpleType => .type <$> simple
  | .referencedType => (.type ∘ .reference) <$> qualifiedName
  | .valueListType => .type <$> valueList
  | .bitStringType => .type <$> bitString
  | .sizeConstraint => .sizeConstraint <$> bounds
  | .componentType => .component <$> component
  | .namedType => (fun (identifier, type) => .namedType identifier type) <$> namedType
  | .namedValue => (fun (identifier, number) => .namedValue identifier number) <$> namedValue
  | .extensionMarker => return .extensionMarker
  | .referencedValue => (.value ∘ .reference) <$> qualifiedName
  | .objectIdentifierValue => (.value ∘ .objectIdentifier) <$> objectIdentifier
  | .nameForm => (.arc ∘ .name) <$> onlyToken
  | .numberForm => (.arc ∘ .number) <$> onlyToken
  | .nameAndNumberForm => .arc <$> nameAndNumber
  | .binaryStringValue => (.value ∘ .binaryString) <$> onlyToken
  | .hexStringValue => (.value ∘ .hexString) <$> onlyToken
  | .moduleReference | .moduleBody | .exports | .imports | .assignmentList
  | .tag | .tagClass | .tagClassNumber | .constraint
  | .componentTypeOptional | .componentTypeDefault | .componentTypeComponentsOf
  | .identifier | .value =>
    throw (.unknownKind p.name)

/-- The construction of the model node of a production with the given elements. -/
def construct (production : Production) (elements : List (Element Draft)) : BuildM Node :=
  (Reading.rule production).of production elements

namespace ParseTree

/-- A parse tree with the construction of every node. -/
def draft (t : ParseTree) : Draft := t.annotate construct

/-- Build the model node of a parse tree. -/
def build (t : ParseTree) : BuildM Node := t.draft.build

theorem build_node (p : Production) (es : List (Element ParseTree)) :
    build (.node p es) = construct p (es.map (Element.map draft)) := by
  simp [build, draft, Draft.build, Tree.annotate_node, Tree.label]
  rfl

end ParseTree

/-- Build a module. A tree of any other production is not a module, whatever stands in it. -/
def buildModule (t : ParseTree) : BuildM Module :=
  if t.label = .moduleDefinition then t.draft.read Reading.module
  else throw (.malformed t.label (.wrongCategory Slot.module.description t.label))

/-- Build one module for each tree, in order. -/
def buildForest (ts : List ParseTree) : BuildM (List Module) := ts.mapM buildModule

end AsnModel
