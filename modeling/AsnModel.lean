import AsnModel.Dependency.Component
import AsnModel.Diagnostic.OfError
import AsnModel.Model.Node
import AsnModel.Session
import AsnModel.Tree.Equality
import AsnModel.Tree.Outline
import AsnModel.Proofs.Dependency.Cycle
import AsnModel.Proofs.Dependency.Graph
import AsnModel.Proofs.Dependency.Removal
import AsnModel.Proofs.Dependency.TopologicalSort
import AsnModel.Proofs.Dependency.CyclicReferences
import AsnModel.Proofs.Dependency.Layered
import AsnModel.Proofs.Dependency.Search
import AsnModel.Proofs.Dependency.Visit
import AsnModel.Proofs.Dependency.DependencySort
import AsnModel.Proofs.Dependency.Agreement
import AsnModel.Proofs.Dependency.DepthFirst
import AsnModel.Proofs.Dependency.DiscoveryOrder
import AsnModel.Proofs.Dependency.Renaming
import AsnModel.Proofs.Dependency.Idempotence
import AsnModel.Proofs.Dependency.Resorting
import AsnModel.Proofs.Dependency.SelfEdges
import AsnModel.Proofs.Dependency.ReferenceStructure
import AsnModel.Proofs.Dependency.Merging
import AsnModel.Proofs.Dependency.Loops
import AsnModel.Proofs.Dependency.SearchStack
import AsnModel.Proofs.Build.Success
import AsnModel.Proofs.Build.Shape
import AsnModel.Proofs.Build.Walk
import AsnModel.Proofs.Build.Grammar
import AsnModel.Proofs.Build.Encoding
import AsnModel.Proofs.Model.Resolve
import AsnModel.Proofs.Build.Draws
import AsnModel.Proofs.Build.Faults
import AsnModel.Proofs.Build.Agreement
import AsnModel.Proofs.Build.Diagnosis
import AsnModel.Proofs.Build.Placeholders
import AsnModel.Proofs.Build.Qualifiers
import AsnModel.Proofs.Build.Roles
import AsnModel.Proofs.Build.Likeness
import AsnModel.Proofs.Build.Transparency
import AsnModel.Proofs.Session.History
import AsnModel.Proofs.Session.Deletion
import AsnModel.Proofs.Session.Isolation
import AsnModel.Proofs.Session.GeneratedNames
import AsnModel.Proofs.Model.AliasLoop
import AsnModel.Proofs.Model.UserTypes
import AsnModel.Proofs.Model.Qualifiers
import AsnModel.Proofs.Build.Stepwise
import AsnModel.Proofs.Build.Unnamed
import AsnModel.Proofs.Build.ItemNumbers
import AsnModel.Proofs.Text.Quoted
import AsnModel.Proofs.Tree.Outline
import AsnModel.Proofs.Tree.Layout
import AsnModel.Proofs.Text.Natural
import AsnModel.Proofs.Model.NumericArcs
