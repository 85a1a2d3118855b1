import AsnModel.Build.Error
import AsnModel.Dependency.Topological
import AsnModel.Diagnostic.Basic
import AsnModel.Model.Resolve

/-!
# Diagnostics of errors

Every error of the library as a diagnostic, each kind under a code of its own.
-/

namespace AsnModel

/-- A diagnostic for a build error. -/
def BuildError.diagnostic (e : BuildError) : Diagnostic :=
  match e with
  | .unknownKind kind =>
    { severity := .error
      code := "E0001"
      name := "Unknown parse node kind"
      labels := [⟨some kind, e.message⟩] }
  | .malformed production defect =>
    { severity := .error
      code := "E0002"
      name := "Malformed parse tree"
      labels :=
        [⟨some production.name, defect.message⟩,
         ⟨none, "the parse tree does not match the grammar the model builder expects"⟩] }

/-- A diagnostic for definitions that cannot be ordered, with a label for each name. -/
def CyclicReferences.diagnostic (e : CyclicReferences) : Diagnostic where
  severity := .error
  code := "E0003"
  name := "Cyclic references cannot be sorted"
  labels := e.names.map fun name => ⟨some name, "part of or depends on a cycle"⟩

/-- A diagnostic for a reference that cannot be resolved. A recursive chain is reported under its
first name. -/
def ResolveError.diagnostic (e : ResolveError) : Diagnostic :=
  match e with
  | .unresolved name =>
    { severity := .error
      code := "E0004"
      name := "Unresolved type reference"
      labels := [⟨some name, "not defined in this module"⟩] }
  | .recursive chain =>
    { severity := .error
      code := "E0005"
      name := "Recursive type alias"
      labels := [⟨some (chain.head?.getD ""), e.message⟩] }

end AsnModel
