import AsnModel.Build.Numbering
import AsnModel.Build.Value

/-!
# Reading types

The nodes of type declarations, and of the members of a SEQUENCE, SET or CHOICE.
-/

namespace AsnModel.Reading

/-! ## Constraints -/

/-- The two bounds of a range. -/
def bounds : Reading Bounds := do
  let min ← value
  let max ← value
  finish
  return ⟨min, max⟩

/-! ## Types -/

/-- SEQUENCE, SET or CHOICE: a keyword and a list of members. -/
def constructed (kind : ConstructedKind) : Reading TypeDecl := do
  let keyword ← token
  let members ← list
  finish
  return .constructed kind keyword (← members.mapM (fit .member))

/-- SEQUENCE OF or SET OF: the element type, possibly behind a size. -/
def collection (kind : CollectionKind) : Reading TypeDecl := do
  let first ← node [.type, .sizeConstraint]
  if first.production = .sizeConstraint then
    let size ← first.read bounds
    let element ← node [.type]
    finish
    return .collection kind (some size) (← fit .typeDecl element)
  else
    finish
    return .collection kind none (← fit .typeDecl first)

/-- A tag: numbers and classes in any order, of which the last ones hold. There has to be a
number. -/
def typeTag : Reading TypeTag := do
  let parts ← forEachLeft do
    let part ← node [.tagClassNumber, .tagClass]
    return (part.production, ← part.read token)
  let last (p : Production) := (parts.reverse.find? fun part => part.1 = p).map (·.2)
  match last .tagClassNumber with
  | some number => return ⟨last .tagClass, number⟩
  | none => fail (.expectedNode (← get).index [.tagClassNumber])

/-- A tagged type: a tag, possibly a keyword, and a type. -/
def tagged : Reading TypeDecl := do
  let tag ← (← node [.tag]).read typeTag
  let keyword ← ifNext (fun e => e.token?.isSome) token
  let type ← next .typeDecl
  finish
  return .tagged tag (keyword = some "IMPLICIT") type

/-- A builtin type, possibly with a range. -/
def simple : Reading TypeDecl := do
  let name ← token
  let range ← ifNext (fun e => e.production? = some .constraint) do
    (← node [.constraint]).read bounds
  finish
  return .simple name range

/-- A list of named values, if there is any element left. -/
def listItems : Reading (Option (List (ListItem (Option String)))) :=
  ifNext (fun _ => true) do (← list).mapM (fit .listItem)

/-- ENUMERATED or INTEGER, with its named values numbered. -/
def valueList : Reading TypeDecl := do
  let name ← token
  let items ← listItems
  finish
  match items with
  | none => return .valueList name none
  | some items =>
    match numberItems items with
    | .ok numbered => return .valueList name (some numbered)
    | .error defect => fail defect

/-- BIT STRING, with its named bits as they are written. -/
def bitString : Reading TypeDecl := do
  let name ← token
  let items ← listItems
  finish
  return .bitString name items

/-! ## Members -/

/-- An identifier and a type. An anonymous member, which is only a type, gets the next generated
name before its type is built. -/
def namedType : Reading (String × TypeDecl) := do
  let first ← node [.type, .identifier]
  if first.production = .type then
    if !(← read).nameAnonymous then fail .unnamedMember
    let identifier ← BuildM.placeholder
    finish
    return (identifier, ← fit .typeDecl first)
  else
    let identifier ← first.read token
    let type ← node []
    finish
    return (identifier, ← fit .typeDecl type)

/-- A named type and nothing else, which is optional. -/
def optionalComponent : Reading (Component TypeDecl) := do
  let (identifier, type) ← (← node [.namedType]).read namedType
  finish
  return .named identifier type .optional

/-- A named type and its default value. -/
def defaultComponent : Reading (Component TypeDecl) := do
  let (identifier, type) ← (← node [.namedType]).read namedType
  let default ← value
  finish
  return .named identifier type (.default default)

/-- The components of a type. -/
def includedComponents : Reading (Component TypeDecl) := do
  let type ← next .typeDecl
  finish
  return .componentsOf type

/-- A named type that is required. -/
def requiredComponent : Reading (Component TypeDecl) := do
  let (identifier, type) ← namedType
  return .named identifier type .required

/-- A component of a SEQUENCE or SET, in one of four forms. -/
def component : Reading (Component TypeDecl) := do
  let form ← node [.namedType, .componentTypeOptional, .componentTypeDefault,
    .componentTypeComponentsOf]
  finish
  form.read <| match form.production with
    | .namedType => requiredComponent
    | .componentTypeOptional => optionalComponent
    | .componentTypeDefault => defaultComponent
    | _ => includedComponents

end AsnModel.Reading
