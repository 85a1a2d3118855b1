import AsnModel.Model.Node
import AsnModel.Proofs.Dependency.ReferenceStructure
import AsnModel.Proofs.Model.Resolve

/-!
# Qualifiers of names

A reference to a type or a value may be qualified by a module. The qualifier has no part in what an
assignment refers to, and so neither in the order of assignments nor in what a reference stands for.

## Main definitions

* `Node.unqualified` — a model without the qualifiers of its references, with an `unqualified` for
  each kind of part.
-/

namespace AsnModel

/-! ## Leaving out the qualifiers -/

/-- The name by itself. -/
def QualifiedName.unqualified (n : QualifiedName) : QualifiedName := ⟨none, n.name⟩

def ValueForm.unqualified : ValueForm → ValueForm
  | .reference name => .reference name.unqualified
  | f => f

def Value.unqualified : Value → Value
  | .literal text => .literal text
  | .form f => .form f.unqualified

def Bounds.unqualified (b : Bounds) : Bounds := ⟨b.min.unqualified, b.max.unqualified⟩

def Presence.unqualified : Presence → Presence
  | .default v => .default v.unqualified
  | presence => presence

mutual

/-- A type declaration without the qualifiers of references, at any depth. -/
def TypeDecl.unqualified : TypeDecl → TypeDecl
  | .constructed kind keyword members =>
    .constructed kind keyword (TypeDecl.unqualifiedMembers members)
  | .collection kind size element =>
    .collection kind (size.map Bounds.unqualified) element.unqualified
  | .tagged tag implicit type => .tagged tag implicit type.unqualified
  | .simple name range => .simple name (range.map Bounds.unqualified)
  | .reference name => .reference name.unqualified
  | type => type

def TypeDecl.unqualifiedMembers : List (Member TypeDecl) → List (Member TypeDecl)
  | [] => []
  | m :: ms => m.unqualified :: TypeDecl.unqualifiedMembers ms

def Member.unqualified : Member TypeDecl → Member TypeDecl
  | .component c => .component c.unqualified
  | .alternative identifier type => .alternative identifier type.unqualified
  | .extension => .extension

def Component.unqualified : Component TypeDecl → Component TypeDecl
  | .named identifier type presence => .named identifier type.unqualified presence.unqualified
  | .componentsOf type => .componentsOf type.unqualified

end

def Assignment.unqualified : Assignment → Assignment
  | .type n t => .type n t.unqualified
  | .value n t v => .value n t.unqualified v.unqualified

def Module.unqualified (m : Module) : Module := ⟨m.name, m.assignments.map Assignment.unqualified⟩

/-- A model without the qualifiers of references. -/
def Node.unqualified : Node → Node
  | .module m => .module m.unqualified
  | .assignment a => .assignment a.unqualified
  | .type t => .type t.unqualified
  | .constraint b => .constraint b.unqualified
  | .sizeConstraint b => .sizeConstraint b.unqualified
  | .component c => .component c.unqualified
  | .namedType identifier t => .namedType identifier t.unqualified
  | .value f => .value f.unqualified
  | n => n

@[simp] theorem TypeDecl.unqualifiedMembers_eq_map (ms : List (Member TypeDecl)) :
    TypeDecl.unqualifiedMembers ms = ms.map Member.unqualified := by
  induction ms with
  | nil => rfl
  | cons m ms ih => rw [TypeDecl.unqualifiedMembers, ih, List.map_cons]

/-! ## Walking a model -/

theorem Member.node_unqualified (m : Member TypeDecl) :
    m.unqualified.node = m.node.unqualified := by
  cases m <;> simp [Member.unqualified, Member.node, Node.unqualified]

theorem Value.node?_unqualified (v : Value) :
    v.unqualified.node? = v.node?.map Node.unqualified := by
  cases v <;> rfl

namespace Node

theorem childrenOfType_unqualified (t : TypeDecl) :
    childrenOfType t.unqualified = (childrenOfType t).map unqualified := by
  cases t with
  | constructed kind keyword members =>
    simp [TypeDecl.unqualified, childrenOfType, Member.node_unqualified]
  | collection kind size element =>
    cases size <;> simp [TypeDecl.unqualified, childrenOfType, unqualified]
  | tagged tag implicit type => simp [TypeDecl.unqualified, childrenOfType, unqualified]
  | simple name range =>
    cases range <;> simp [TypeDecl.unqualified, childrenOfType, unqualified]
  | reference name => simp [TypeDecl.unqualified, childrenOfType]
  | valueList name items =>
    simp only [TypeDecl.unqualified, childrenOfType, List.map_map]
    refine List.map_congr_left fun item _ => ?_
    cases item <;> rfl
  | bitString name items =>
    simp only [TypeDecl.unqualified, childrenOfType, List.map_map]
    refine List.map_congr_left fun item _ => ?_
    cases item <;> rfl

theorem childrenOfComponent_unqualified (c : Component TypeDecl) :
    childrenOfComponent c.unqualified = (childrenOfComponent c).map unqualified := by
  cases c with
  | named identifier type presence =>
    cases presence with
    | default v =>
      simp only [Component.unqualified, Presence.unqualified, childrenOfComponent, List.map_cons,
        Value.node?_unqualified, Option.toList_map]
      rfl
    | _ => simp [Component.unqualified, Presence.unqualified, childrenOfComponent, Component.type,
        unqualified]
  | componentsOf type =>
    simp [Component.unqualified, childrenOfComponent, Component.type, unqualified]

/-- A model owns the same nodes without the qualifiers, each of them without its own. -/
theorem children_unqualified (n : Node) : n.unqualified.children = n.children.map unqualified := by
  have hbounds : ∀ b : Bounds, b.unqualified.min.node?.toList ++ b.unqualified.max.node?.toList =
      (b.min.node?.toList ++ b.max.node?.toList).map unqualified := by
    intro b
    simp [Bounds.unqualified, Value.node?_unqualified, Option.toList_map]
  cases n with
  | module m => simp [unqualified, Module.unqualified, children]
  | assignment a =>
    cases a <;> simp [unqualified, Assignment.unqualified, children, Value.node?_unqualified,
      Option.toList_map]
  | type t => exact childrenOfType_unqualified t
  | constraint b | sizeConstraint b => exact hbounds b
  | component c => exact childrenOfComponent_unqualified c
  | namedType identifier type => simp [unqualified, children]
  | value f => cases f <;> simp [unqualified, ValueForm.unqualified, children]
  | arc f => cases f <;> simp [unqualified, children]
  | namedValue | extensionMarker => simp [unqualified, children]

theorem descendants_unqualified (n : Node) :
    n.unqualified.descendants = n.descendants.map unqualified := by
  have ih : ∀ c ∈ n.children,
      c.unqualified :: c.unqualified.descendants = (c :: c.descendants).map unqualified := by
    intro c _
    rw [descendants_unqualified c, List.map_cons]
  rw [descendants_eq, descendants_eq n, children_unqualified, List.flatMap_map, List.map_flatMap,
    List.flatMap_congr ih]
termination_by n
decreasing_by exact sizeOf_lt_of_mem_children ‹_›

/-- A reference keeps its name. -/
theorem referenceName?_unqualified (n : Node) :
    n.unqualified.referenceName? = n.referenceName? := by
  cases n with
  | assignment a => cases a <;> rfl
  | type t => cases t <;> rfl
  | value f => cases f <;> rfl
  | _ => rfl

theorem referencedNames_unqualified (n : Node) :
    n.unqualified.referencedNames = n.referencedNames := by
  have hname : referenceName? ∘ unqualified = referenceName? :=
    funext referenceName?_unqualified
  rw [referencedNames, descendants_unqualified, List.filterMap_map, hname, referencedNames]

end Node

/-! ## Order -/

namespace Assignment

theorem name_unqualified (a : Assignment) :
    Dependent.name a.unqualified = Dependent.name a := by
  cases a <;> rfl

theorem references_unqualified (a : Assignment) :
    Dependent.references a.unqualified = Dependent.references a :=
  (Node.assignment a).referencedNames_unqualified

end Assignment

section Replacing

variable {α β : Type*} [Dependent α] [Dependent β] {f : α → β}
  (hname : ∀ a, Dependent.name (f a) = Dependent.name a)
  (hreferences : ∀ a, Dependent.references (f a) = Dependent.references a)

include hname hreferences

/-- Definitions may be replaced by others of the same names that refer to the same names. -/
theorem dependencyGraph_map (items : List α) :
    dependencyGraph (items.map f) = dependencyGraph items := by
  simp only [dependencyGraph, List.foldl_map, hname, hreferences]

theorem correspondUnder_map (items : List α) :
    CorrespondUnder id (definedReferences items) (definedReferences (items.map f)) items
      (items.map f) := by
  have hnames : (items.map f).map Dependent.name = items.map Dependent.name := by
    simp only [List.map_map, Function.comp_def, hname]
  refine List.forall₂_map_right_iff.2 (List.forall₂_same.2 fun a _ => ⟨hname a, ?_⟩)
  simp only [definedReferences, hreferences, hnames, List.map_id]

theorem positions_map (items : List α) :
    componentPositions (items.map f) = componentPositions items ∧
      sortedPositions (items.map f) = sortedPositions items := by
  have h := eq_of_correspondUnder_definedReferences (Set.injOn_id _)
    (correspondUnder_map hname hreferences items)
  rwa [mapError_rename_id] at h

theorem topologicalSort_map (items : List α) :
    topologicalSort (items.map f) = (topologicalSort items).map (List.map f) := by
  have hfilter : ∀ n, (items.map f).filter (fun d => Dependent.name d = n) =
      (items.filter fun d => Dependent.name d = n).map f := by
    intro n
    simp only [List.filter_map, Function.comp_def, hname]
  have hremoval : removalOf (items.map f) = removalOf items := by
    rw [removalOf, dependencyGraph_map hname hreferences, removalOf]
  rw [topologicalSort_eq, topologicalSort_eq, hremoval]
  split_ifs
  · simp only [Except.map, List.map_flatMap, hfilter]
  · rfl

theorem dependencySort_map (items : List α) :
    dependencySort (items.map f) = (dependencySort items).map (List.map f) := by
  rw [dependencySort, (positions_map hname hreferences items).1, dependencySort, List.map_map]
  refine List.map_congr_left fun component _ => ?_
  simp only [Function.comp_apply, List.map_filterMap, List.getElem?_map]

end Replacing

/-! ## What a reference stands for -/

namespace Module

variable {m : Module} {name : String}

theorem lastDeclaration?_unqualified (m : Module) (name : String) :
    m.unqualified.lastDeclaration? name =
      (m.lastDeclaration? name).map TypeDecl.unqualified := by
  have hdeclares : Assignment.declares? name ∘ Assignment.unqualified =
      fun a => (a.declares? name).map TypeDecl.unqualified := by
    funext a
    cases a with
    | type n t =>
      simp only [Function.comp_apply, Assignment.unqualified, Assignment.declares?]
      split_ifs <;> rfl
    | value n t v => rfl
  rw [lastDeclaration?, unqualified, ← List.map_reverse, List.findSome?_map, hdeclares,
    lastDeclaration?]
  induction m.assignments.reverse with
  | nil => rfl
  | cons a as ih => cases h : a.declares? name <;> simp [h, ih]

theorem userType?_unqualified (m : Module) (name : String) :
    m.unqualified.userType? name = (m.userType? name).map TypeDecl.unqualified := by
  rw [userType?_eq, userType?_eq, lastDeclaration?_unqualified]

/-- References are followed by the same names. -/
theorem resolveAfter_unqualified (m : Module) (chain : List String) (t : TypeDecl) :
    m.unqualified.resolveAfter chain t.unqualified =
      (m.resolveAfter chain t).map TypeDecl.unqualified := by
  fun_induction resolveAfter m chain t with
  | case1 chain qualifier name hrepeat =>
    simp [TypeDecl.unqualified, QualifiedName.unqualified, resolveAfter_reference, hrepeat,
      Except.map]
  | case2 chain qualifier name hnew hundefined =>
    simp [TypeDecl.unqualified, QualifiedName.unqualified, resolveAfter_reference, hnew,
      userType?_unqualified, hundefined, Except.map]
  | case3 chain qualifier name hnew type htype ih =>
    simp [TypeDecl.unqualified, QualifiedName.unqualified, resolveAfter_reference, hnew,
      userType?_unqualified, htype, ih]
  | case4 chain t hreference =>
    have ht : t.unqualified.isReference = false := by
      have := TypeDecl.isReference_eq_false hreference
      cases t <;> simp_all [TypeDecl.unqualified, TypeDecl.isReference]
    rw [resolveAfter_of_not_isReference m.unqualified chain ht]
    rfl

/-- A name that is assigned a reference to the same name of another module stands for itself. -/
theorem resolve_of_self_reference {q : Option String} (q' : Option String)
    (h : m.lastDeclaration? name = some (.reference ⟨q, name⟩)) :
    m.resolve (.reference ⟨q', name⟩) = .error (.recursive [name, name]) := by
  simp [resolve, resolveAfter_reference, userType?_eq, h]

end Module

end AsnModel
