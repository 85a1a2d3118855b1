import AsnModel.Build.TypeDecl

/-!
# Reading modules

The nodes of modules and of their assignments.
-/

namespace AsnModel.Reading

/-- `Name ::= Type`. -/
def typeAssignment : Reading Assignment := do
  let name ← token
  let _ ← token
  let type ← next .typeDecl
  finish
  return .type name type

/-- `name Type ::= value`. -/
def valueAssignment : Reading Assignment := do
  let name ← token
  let type ← next .typeDecl
  let _ ← token
  let value ← value
  finish
  return .value name type value

/-- The list of assignments in the body of a module, behind its exports and imports. -/
def moduleBody : Reading Draft := do
  skip 2
  let assignments ← node [.assignmentList]
  finish
  return assignments

/-- A module: its name, four elements that do not matter (DEFINITIONS, the defaults for tagging and
extensibility, and `::=`), its body, and the closing keyword. -/
def module : Reading Module := do
  let name ← (← node [.moduleReference]).read token
  skip 4
  let body ← node [.moduleBody]
  skip 1
  finish
  let assignments ← body.read moduleBody
  return ⟨name, ← assignments.read (forEachLeft (next .assignment))⟩

end AsnModel.Reading
