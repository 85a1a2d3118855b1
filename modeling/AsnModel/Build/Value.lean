import AsnModel.Build.Reading

/-!
# Reading values

The nodes of values, of the components of object identifiers, and of named values.
-/

namespace AsnModel.Reading

/-- A token and nothing else. -/
def onlyToken : Reading String := do
  let text ← token
  finish
  return text

/-- The name in a module reference at the front, if there is one. -/
def qualifier : Reading (Option String) :=
  ifNext (fun e => e.production? = some .moduleReference) do
    (← node [.moduleReference]).read token

/-- A name, possibly qualified by a module. -/
def qualifiedName : Reading QualifiedName := do
  let qualifier ← qualifier
  let name ← onlyToken
  return ⟨qualifier, name⟩

/-- An object identifier: nothing but components. -/
def objectIdentifier : Reading (List ArcForm) := forEachLeft (next .arc)

/-- A component of an object identifier that is a name with its number. -/
def nameAndNumber : Reading ArcForm := do
  let name ← (← node [.nameForm]).read onlyToken
  let number ← (← node [.numberForm]).read onlyToken
  finish
  return .nameAndNumber name number

/-- A named value: a bare identifier, or an identifier and a node that holds the number. -/
def namedValue : Reading (String × Option String) := do
  match ← ifNext (fun e => e.token?.isSome) token with
  | some identifier =>
    finish
    return (identifier, none)
  | none =>
    let identifier ← (← node [.identifier]).read token
    let number ← (← node []).read onlyToken
    finish
    return (identifier, some number)

end AsnModel.Reading
