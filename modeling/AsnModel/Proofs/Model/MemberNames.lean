import AsnModel.Model.Node
import Mathlib.Data.List.Basic

/-!
# Names of members

The identifiers of the members of a model, in the order in which they are written, and what is left
of the model without them. The two together make up the model.

## Main definitions

* `Node.identifiers` — the identifiers of all nodes that are members, in pre-order.
* `Node.nameless` — a model without the identifiers of its members, with a `nameless` for each kind
  of part.
-/

namespace AsnModel

namespace Node

/-- The identifier of a member of a SEQUENCE, SET or CHOICE. -/
def memberName? : Node → Option String
  | .component (.named identifier _ _) => some identifier
  | .namedType identifier _ => some identifier
  | _ => none

/-- The identifiers of the nodes of a model that are members, in pre-order of all nodes. -/
def identifiers (n : Node) : List (Option String) := (n :: n.descendants).map memberName?

theorem identifiers_eq (n : Node) :
    n.identifiers = n.memberName? :: n.children.flatMap identifiers := by
  rw [identifiers, descendants_eq, List.map_cons, List.map_flatMap]
  rfl

end Node

/-! ## Leaving out the names -/

mutual

/-- A type declaration with empty identifiers for the members. -/
def TypeDecl.nameless : TypeDecl → TypeDecl
  | .constructed kind keyword members =>
    .constructed kind keyword (TypeDecl.namelessMembers members)
  | .collection kind size element => .collection kind size element.nameless
  | .tagged tag implicit type => .tagged tag implicit type.nameless
  | type => type

def TypeDecl.namelessMembers : List (Member TypeDecl) → List (Member TypeDecl)
  | [] => []
  | m :: ms => m.nameless :: TypeDecl.namelessMembers ms

def Member.nameless : Member TypeDecl → Member TypeDecl
  | .component c => .component c.nameless
  | .alternative _ type => .alternative "" type.nameless
  | .extension => .extension

def Component.nameless : Component TypeDecl → Component TypeDecl
  | .named _ type presence => .named "" type.nameless presence
  | .componentsOf type => .componentsOf type.nameless

end

def Assignment.nameless : Assignment → Assignment
  | .type n t => .type n t.nameless
  | .value n t v => .value n t.nameless v

def Module.nameless (m : Module) : Module := ⟨m.name, m.assignments.map Assignment.nameless⟩

/-- A model with empty identifiers for the members. -/
def Node.nameless : Node → Node
  | .module m => .module m.nameless
  | .assignment a => .assignment a.nameless
  | .type t => .type t.nameless
  | .component c => .component c.nameless
  | .namedType _ t => .namedType "" t.nameless
  | n => n

@[simp] theorem TypeDecl.namelessMembers_eq_map (ms : List (Member TypeDecl)) :
    TypeDecl.namelessMembers ms = ms.map Member.nameless := by
  induction ms with
  | nil => rfl
  | cons m ms ih => rw [TypeDecl.namelessMembers, ih, List.map_cons]

theorem Member.node_nameless (m : Member TypeDecl) : m.nameless.node = m.node.nameless := by
  cases m <;> simp [Member.nameless, Member.node, Node.nameless]

theorem Member.node_injective : Function.Injective Member.node := by
  intro m m' h
  cases m <;> cases m' <;> simp_all [Member.node]

/-- A model owns as many nodes without its names. -/
theorem Node.children_nameless (n : Node) : n.nameless.children = n.children.map nameless := by
  have hnode : ∀ v : Value, v.node?.toList.map nameless = v.node?.toList := by
    intro v
    cases v <;> simp [Value.node?, nameless]
  cases n with
  | module m => simp [nameless, Module.nameless, children]
  | assignment a => cases a <;> simp [nameless, Assignment.nameless, children, hnode]
  | type t =>
    cases t with
    | constructed kind keyword members =>
      simp [nameless, TypeDecl.nameless, children, childrenOfType, Member.node_nameless]
    | collection kind size element =>
      cases size <;> simp [nameless, TypeDecl.nameless, children, childrenOfType]
    | tagged tag implicit type => simp [nameless, TypeDecl.nameless, children, childrenOfType]
    | simple name range =>
      cases range <;> simp [nameless, TypeDecl.nameless, children, childrenOfType]
    | reference name => simp [nameless, TypeDecl.nameless, children, childrenOfType]
    | valueList name items =>
      simp only [nameless, TypeDecl.nameless, children, childrenOfType, List.map_map]
      refine List.map_congr_left fun item _ => ?_
      cases item <;> rfl
    | bitString name items =>
      simp only [nameless, TypeDecl.nameless, children, childrenOfType, List.map_map]
      refine List.map_congr_left fun item _ => ?_
      cases item <;> rfl
  | component c =>
    cases c with
    | named identifier type presence =>
      cases presence <;>
        simp [nameless, Component.nameless, children, childrenOfComponent, Component.type, hnode]
    | componentsOf type =>
      simp [nameless, Component.nameless, children, childrenOfComponent, Component.type]
  | namedType identifier type => simp [nameless, children]
  | constraint b | sizeConstraint b => simp [nameless, children, hnode]
  | value f => cases f <;> simp [nameless, children]
  | arc f => cases f <;> simp [nameless, children]
  | namedValue | extensionMarker => simp [nameless, children]

theorem Node.memberName?_nameless (n : Node) :
    n.nameless.memberName? = n.memberName?.map fun _ => "" := by
  cases n with
  | component c => cases c <;> rfl
  | _ => rfl

theorem Node.identifiers_nameless (n : Node) :
    n.nameless.identifiers = n.identifiers.map (Option.map fun _ => "") := by
  have ih : ∀ c ∈ n.children,
      c.nameless.identifiers = c.identifiers.map (Option.map fun _ => "") :=
    fun c _ => identifiers_nameless c
  rw [identifiers_eq, identifiers_eq n, memberName?_nameless, children_nameless, List.flatMap_map,
    List.map_cons, List.map_flatMap, List.flatMap_congr ih]
termination_by n
decreasing_by exact sizeOf_lt_of_mem_children ‹_›

/-- How many nodes a model has does not depend on their names. -/
theorem Node.length_identifiers_eq {n n' : Node} (h : n.nameless = n'.nameless) :
    n.identifiers.length = n'.identifiers.length := by
  have hnames := congrArg (List.length ∘ identifiers) h
  simpa [identifiers_nameless] using hnames

/-! ## Putting a model together -/

namespace Node

variable {n n' : Node}

theorem type_eq_of_children_eq {t t' : TypeDecl} (h : t.nameless = t'.nameless)
    (hchildren : childrenOfType t = childrenOfType t') : t = t' := by
  cases t with
  | constructed kind keyword members =>
    cases t' <;> simp [TypeDecl.nameless, childrenOfType] at h hchildren
    obtain ⟨rfl, rfl, -⟩ := h
    rw [Member.node_injective.list_map hchildren]
  | collection | tagged => cases t' <;> simp_all [TypeDecl.nameless, childrenOfType]
  | _ => cases t' <;> simp_all [TypeDecl.nameless]

theorem component_eq_of_children_eq {c c' : Component TypeDecl} (h : c.nameless = c'.nameless)
    (hname : (component c).memberName? = (component c').memberName?)
    (hchildren : childrenOfComponent c = childrenOfComponent c') : c = c' := by
  have htype : ∀ c : Component TypeDecl, ∃ ns, childrenOfComponent c = type c.type :: ns := by
    intro c
    fun_cases childrenOfComponent c <;> exact ⟨_, rfl⟩
  obtain ⟨ns, hns⟩ := htype c
  obtain ⟨ns', hns'⟩ := htype c'
  rw [hns, hns'] at hchildren
  cases c <;> cases c' <;> simp_all [Component.nameless, memberName?, Component.type]

theorem assignment_eq_of_children_eq {a a' : Assignment} (h : a.nameless = a'.nameless)
    (hchildren : (assignment a).children = (assignment a').children) : a = a' := by
  cases a <;> cases a' <;> simp_all [Assignment.nameless, children]

/-- A node is determined by what it is without names, its own name, and what it owns. -/
theorem eq_of_children_eq (h : n.nameless = n'.nameless) (hname : n.memberName? = n'.memberName?)
    (hchildren : n.children = n'.children) : n = n' := by
  cases n with
  | module m =>
    obtain ⟨name, assignments⟩ := m
    cases n' <;> simp [nameless, Module.nameless, children] at h hchildren
    have hassignments := List.map_injective_iff.2 (fun _ _ => assignment.inj) hchildren
    simp [h, hassignments]
  | assignment a =>
    cases n' <;> simp [nameless] at h
    rw [assignment_eq_of_children_eq h hchildren]
  | type t =>
    cases n' <;> simp [nameless] at h
    rw [type_eq_of_children_eq h hchildren]
  | component c =>
    cases n' <;> simp [nameless] at h
    rw [component_eq_of_children_eq h hname hchildren]
  | namedType identifier t => cases n' <;> simp_all [nameless, memberName?, children]
  | _ => cases n' <;> simp_all [nameless]

/-- Lists of nodes that have the same names in the same places, and are the same without them. -/
theorem eq_of_map_nameless_eq {cs cs' : List Node}
    (hcs : ∀ c ∈ cs, ∀ c', c.nameless = c'.nameless → c.identifiers = c'.identifiers → c = c')
    (h : cs.map nameless = cs'.map nameless)
    (hnames : cs.flatMap identifiers = cs'.flatMap identifiers) : cs = cs' := by
  induction cs generalizing cs' with
  | nil => simpa [eq_comm] using h
  | cons c cs ih =>
    obtain _ | ⟨c', cs'⟩ := cs'
    · simp at h
    · obtain ⟨hc, h⟩ := List.cons.inj h
      obtain ⟨hhead, htail⟩ := List.append_inj hnames (length_identifiers_eq hc)
      rw [hcs c (by simp) c' hc hhead, ih (fun d hd => hcs d (by simp [hd])) h htail]

/-- The names of its members and what is left without them determine a model. -/
theorem eq_of_nameless_eq (n : Node) : ∀ n', n.nameless = n'.nameless →
    n.identifiers = n'.identifiers → n = n' := by
  intro n' h hnames
  have ih : ∀ c ∈ n.children, ∀ c', c.nameless = c'.nameless → c.identifiers = c'.identifiers →
      c = c' := fun c _ => eq_of_nameless_eq c
  have hmap : n.children.map nameless = n'.children.map nameless := by
    rw [← children_nameless, ← children_nameless, h]
  rw [identifiers_eq, identifiers_eq n'] at hnames
  obtain ⟨hown, hbelow⟩ := List.cons.inj hnames
  exact eq_of_children_eq h hown (eq_of_map_nameless_eq ih hmap hbelow)
termination_by n
decreasing_by exact sizeOf_lt_of_mem_children ‹_›

end Node

end AsnModel
