import AsnModel.OrderedMap

/-!
# Dependency graphs

Definitions have a name and refer to other names. A dependency graph maps every defined name to the
names that its definitions refer to.

## Main definitions

* `Dependent` — types of named definitions that refer to names.
* `Definition` — a definition that is nothing but its name and references.
* `dependencyGraph` — the graph of a list of definitions.
* `DependencyGraph.proper` — the graph without self-references and undefined names.
-/

namespace AsnModel

universe u v

theorem nodup_eraseDups {α : Type u} [BEq α] [LawfulBEq α] (l : List α) : l.eraseDups.Nodup := by
  match l with
  | [] => simp
  | a :: as =>
    rw [List.eraseDups_cons]
    exact List.nodup_cons.2 ⟨by simp [List.mem_eraseDups], nodup_eraseDups _⟩
termination_by l.length
decreasing_by exact Nat.lt_succ_of_le (List.length_filter_le ..)

/-- Types of definitions: each has a name and refers to a set of names, listed in the order in which
they are first used. -/
class Dependent (α : Type u) where
  name : α → String
  references : α → List String
  nodup_references : ∀ a, (references a).Nodup

/-- A definition that is nothing but its name and references. -/
structure Definition where
  name : String
  references : List String
  nodup_references : references.Nodup
deriving DecidableEq

/-- The definition of `name` that refers to the given names; only the first use of each counts. -/
def Definition.ofUses (name : String) (uses : List String) : Definition :=
  ⟨name, uses.eraseDups, nodup_eraseDups uses⟩

instance : Dependent Definition where
  name := Definition.name
  references := Definition.references
  nodup_references := Definition.nodup_references

/-- A definition may carry anything along with it. -/
instance {α : Type u} {β : Type v} [Dependent α] : Dependent (α × β) where
  name p := Dependent.name p.1
  references p := Dependent.references p.1
  nodup_references p := Dependent.nodup_references p.1

/-- Defined names in the order of their first definition, with the names they refer to. -/
abbrev DependencyGraph := OrderedMap String (List String)

/-- The graph of a list of definitions. If a name is defined more than once, the references of its
definitions are merged. -/
def dependencyGraph {α : Type u} [Dependent α] (items : List α) : DependencyGraph :=
  items.foldl (fun graph item => graph.alter (Dependent.name item) fun references =>
    (references.getD [] ++ Dependent.references item).eraseDups) .empty

namespace DependencyGraph

/-- The graph without references of a name to itself and to names that are not defined. -/
def proper (g : DependencyGraph) : DependencyGraph :=
  g.mapValues fun name references => references.filter fun r => r ≠ name && g.contains r

/-- The number of names that refer to `name`. -/
def referrers (g : DependencyGraph) (name : String) : Nat :=
  g.entries.countP fun (_, references) => name ∈ references

end DependencyGraph

end AsnModel
