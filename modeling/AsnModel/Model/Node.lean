import AsnModel.Dependency.Graph
import AsnModel.Model.Module
import AsnModel.Production

/-!
# Nodes of a model

A uniform view of everything that a model is made of, so that a model can be walked without regard
to what the single parts are. Raw literals are not nodes.

## Main definitions

* `Node` — any part of a model.
* `Node.production` — the production that a node is built from.
* `Node.children`, `Node.descendants` — what a node owns directly, and at any depth.
* `Node.referenceName?` — the name that a node defines or refers to.
* `Node.referencedNames` — the names that an assignment depends on: those of all types, values and
  symbolic object identifier arcs anywhere below it.
* `Node.render` — its text.
-/

namespace AsnModel

/-- Any part of a model. -/
inductive Node where
  | module (module : Module)
  | assignment (assignment : Assignment)
  | type (type : TypeDecl)
  /-- The range of a builtin type. -/
  | constraint (bounds : Bounds)
  /-- The size of a collection. -/
  | sizeConstraint (bounds : Bounds)
  | component (component : Component TypeDecl)
  | namedType (identifier : String) (type : TypeDecl)
  | namedValue (identifier : String) (value : Option String)
  | extensionMarker
  | value (form : ValueForm)
  | arc (form : ArcForm)
deriving DecidableEq

/-- The node held by a value, if it is not a raw literal. -/
def Value.node? : Value → Option Node
  | .literal _ => none
  | .form f => some (.value f)

/-- A member as a node. -/
def Member.node : Member TypeDecl → Node
  | .component c => .component c
  | .alternative identifier type => .namedType identifier type
  | .extension => .extensionMarker

/-- An item of a list of named values as a node. -/
def ListItem.node : ListItem (Option String) → Node
  | .named identifier value => .namedValue identifier value
  | .extension => .extensionMarker

namespace Node

/-! ## Kind and name -/

/-- The production that a node is built from. -/
def production : Node → Production
  | .module _ => .moduleDefinition
  | .assignment (.type _ _) => .typeAssignment
  | .assignment (.value _ _ _) => .valueAssignment
  | .type (.constructed .sequence _ _) => .sequenceType
  | .type (.constructed .set _ _) => .setType
  | .type (.constructed .choice _ _) => .choiceType
  | .type (.collection .sequenceOf _ _) => .sequenceOfType
  | .type (.collection .setOf _ _) => .setOfType
  | .type (.tagged _ _ _) => .taggedType
  | .type (.simple _ _) => .simpleType
  | .type (.reference _) => .referencedType
  | .type (.valueList _ _) => .valueListType
  | .type (.bitString _ _) => .bitStringType
  | .constraint _ => .constraint
  | .sizeConstraint _ => .sizeConstraint
  | .component _ => .componentType
  | .namedType _ _ => .namedType
  | .namedValue _ _ => .namedValue
  | .extensionMarker => .extensionMarker
  | .value (.reference _) => .referencedValue
  | .value (.objectIdentifier _) => .objectIdentifierValue
  | .value (.binaryString _) => .binaryStringValue
  | .value (.hexString _) => .hexStringValue
  | .arc (.name _) => .nameForm
  | .arc (.number _) => .numberForm
  | .arc (.nameAndNumber _ _) => .nameAndNumberForm

/-- The name that a node defines, or that it stands for. -/
def referenceName? : Node → Option String
  | .assignment a => some a.name
  | .type (.reference name) => some name.name
  | .value (.reference name) => some name.name
  | .arc (.name name) => some name
  | _ => none

/-! ## Walking a model -/

/-- The nodes that a type declaration owns directly. -/
def childrenOfType : TypeDecl → List Node
  | .constructed _ _ members => members.map Member.node
  | .collection _ size element => (size.map sizeConstraint).toList ++ [type element]
  | .tagged _ _ t => [type t]
  | .simple _ range => (range.map constraint).toList
  | .reference _ => []
  | .valueList _ items => (items.getD []).map fun item => (item.map some).node
  | .bitString _ items => (items.getD []).map ListItem.node

/-- The nodes that a component owns directly: its type and its default value. -/
def childrenOfComponent : Component TypeDecl → List Node
  | .named _ t (.default v) => type t :: v.node?.toList
  | c => [type c.type]

/-- All nodes that a node owns directly, in the order in which they are written. -/
def children : Node → List Node
  | .module m => m.assignments.map assignment
  | .assignment (.type _ t) => [type t]
  | .assignment (.value _ t v) => type t :: v.node?.toList
  | .type t => childrenOfType t
  | .constraint b => b.min.node?.toList ++ b.max.node?.toList
  | .sizeConstraint b => b.min.node?.toList ++ b.max.node?.toList
  | .component c => childrenOfComponent c
  | .namedType _ t => [type t]
  | .value (.objectIdentifier components) => components.map arc
  | .arc (.nameAndNumber name number) => [arc (.name name), arc (.number number)]
  | _ => []

theorem sizeOf_pos_string (s : String) : 0 < sizeOf s := by
  cases s
  simp only [String.ofByteArray.sizeOf_spec]
  omega

theorem sizeOf_le_of_node?_eq_some {v : Value} {c : Node} (h : v.node? = some c) :
    sizeOf c ≤ sizeOf v := by
  cases v <;> simp_all [Value.node?]
  subst h; simp

theorem sizeOf_node_member_le (m : Member TypeDecl) : sizeOf m.node ≤ sizeOf m := by
  cases m <;> simp [Member.node]

theorem sizeOf_node_item_le (i : ListItem (Option String)) : sizeOf i.node ≤ sizeOf i := by
  cases i <;> simp [ListItem.node]

theorem sizeOf_le_of_mem_childrenOfType {t : TypeDecl} {c : Node} (h : c ∈ childrenOfType t) :
    sizeOf c ≤ sizeOf t := by
  cases t with
  | constructed kind keyword members =>
    obtain ⟨m, hm, rfl⟩ := List.mem_map.1 h
    have := sizeOf_node_member_le m
    have := List.sizeOf_lt_of_mem hm
    simp; omega
  | collection kind size element =>
    cases size <;> simp [childrenOfType] at h
    · subst h; simp
    · rcases h with rfl | rfl <;> simp <;> omega
  | tagged tag implicit type => simp_all [childrenOfType]
  | simple name range => cases range <;> simp_all [childrenOfType]
  | reference name => simp [childrenOfType] at h
  | valueList name items =>
    cases items with
    | none => simp [childrenOfType] at h
    | some items =>
      obtain ⟨i, hi, rfl⟩ := List.mem_map.1 h
      have := List.sizeOf_lt_of_mem hi
      cases i <;> simp [ListItem.map, ListItem.node] at * <;> omega
  | bitString name items =>
    cases items with
    | none => simp [childrenOfType] at h
    | some items =>
      obtain ⟨i, hi, rfl⟩ := List.mem_map.1 h
      have := sizeOf_node_item_le i
      have := List.sizeOf_lt_of_mem hi
      simp at *; omega

theorem sizeOf_le_of_mem_childrenOfComponent {p : Component TypeDecl} {c : Node}
    (h : c ∈ childrenOfComponent p) : sizeOf c ≤ sizeOf p := by
  cases p with
  | named i t p =>
    cases p with
    | default v =>
      rcases List.mem_cons.1 h with rfl | h
      · simp; omega
      · have := sizeOf_le_of_node?_eq_some (by simpa using h)
        simp; omega
    | _ =>
      obtain rfl : c = type t := by simpa [childrenOfComponent, Component.type] using h
      simp; omega
  | componentsOf t =>
    obtain rfl : c = type t := by simpa [childrenOfComponent, Component.type] using h
    simp

theorem sizeOf_lt_of_mem_bounds {b : Bounds} {c : Node}
    (h : c ∈ b.min.node?.toList ++ b.max.node?.toList) : sizeOf c < sizeOf b := by
  obtain ⟨lo, hi⟩ := b
  rcases List.mem_append.1 h with h | h <;>
    have := sizeOf_le_of_node?_eq_some (by simpa using h) <;> simp at * <;> omega

/-- Every child of a node is smaller than the node. -/
theorem sizeOf_lt_of_mem_children {n c : Node} (h : c ∈ n.children) : sizeOf c < sizeOf n := by
  cases n with
  | module m =>
    obtain ⟨a, ha, rfl⟩ := List.mem_map.1 h
    have := List.sizeOf_lt_of_mem ha
    cases m
    simp at *; omega
  | assignment a =>
    cases a with
    | type n t =>
      obtain rfl : c = type t := by simpa [children] using h
      simp only [type.sizeOf_spec, assignment.sizeOf_spec, Assignment.type.sizeOf_spec]
      omega
    | value n t v =>
      rcases List.mem_cons.1 h with rfl | h
      · simp; omega
      · have := sizeOf_le_of_node?_eq_some (by simpa using h)
        simp; omega
  | type t =>
    have := sizeOf_le_of_mem_childrenOfType h
    simp; omega
  | constraint b =>
    have := sizeOf_lt_of_mem_bounds h
    simp; omega
  | sizeConstraint b =>
    have := sizeOf_lt_of_mem_bounds h
    simp; omega
  | component p =>
    have := sizeOf_le_of_mem_childrenOfComponent h
    simp; omega
  | namedType i t =>
    obtain rfl : c = type t := by simpa [children] using h
    have := sizeOf_pos_string i
    simp; omega
  | value f =>
    cases f with
    | objectIdentifier cs =>
      obtain ⟨a, ha, rfl⟩ := List.mem_map.1 h
      have := List.sizeOf_lt_of_mem ha
      simp; omega
    | _ => simp [children] at h
  | arc f =>
    cases f with
    | nameAndNumber n v =>
      have := sizeOf_pos_string n
      have := sizeOf_pos_string v
      simp [children] at h
      rcases h with rfl | rfl <;> simp <;> omega
    | _ => simp [children] at h
  | _ => simp [children] at h

/-- All nodes that a node owns, at any depth. Each one stands before the nodes that it owns itself,
and siblings keep their order. A node does not list itself. -/
def descendants (n : Node) : List Node :=
  n.children.attach.flatMap fun ⟨c, _⟩ => c :: c.descendants
termination_by n
decreasing_by exact sizeOf_lt_of_mem_children ‹_›

theorem descendants_eq (n : Node) :
    n.descendants = n.children.flatMap fun c => c :: c.descendants := by
  rw [descendants]
  simp

/-- The names that occur anywhere below a node, in the order of their first use. -/
def referencedNames (n : Node) : List String :=
  (n.descendants.filterMap referenceName?).eraseDups

/-! ## Text -/

/-- The text of a node. -/
def render : Node → String
  | .module m => m.render
  | .assignment a => a.render
  | .type t => t.render
  | .constraint b => b.render
  | .sizeConstraint b => b.renderSize
  | .component c => c.render
  | .namedType identifier t => (Member.alternative identifier t).render
  | .namedValue identifier v => renderNamedValue identifier v
  | .extensionMarker => extensionMark
  | .value f => f.render
  | .arc f => f.render

end Node

instance : Dependent Assignment where
  name := Assignment.name
  references a := (Node.assignment a).referencedNames
  nodup_references _ := nodup_eraseDups _

end AsnModel
