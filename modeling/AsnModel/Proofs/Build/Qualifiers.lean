import AsnModel.Proofs.Build.Placeholders
import AsnModel.Proofs.Model.Qualifiers

/-!
# Parse trees without qualifiers

A parse tree that leaves out the module references in front of the names it refers to is built to
the same model without the qualifiers. So qualifiers have no influence on how the assignments of a
module are ordered, and on what its references stand for.

## Main definitions

* `ParseTree.unqualified` — a parse tree without the module references in its references.
* `ParseTree.DropsQualifiers` — building the tree commutes with leaving out the qualifiers.
-/

namespace AsnModel

namespace ParseTree

/-! ## Leaving out the module references -/

/-- The elements of a node, without the module reference that they begin with if the node refers to
a type or a value. -/
def withoutQualifier (p : Production) (es : List (Element ParseTree)) : List (Element ParseTree) :=
  if p = .referencedType ∨ p = .referencedValue then
    match es with
    | .tree (.node .moduleReference _) :: rest => rest
    | es => es
  else es

mutual

/-- A parse tree without the module references of all nodes that refer to a type or a value. -/
def unqualified : ParseTree → ParseTree
  | .node p es => .node p (withoutQualifier p (unqualifiedElements es))

/-- `ParseTree.unqualified` below each element of a node. -/
def unqualifiedElements : List (Element ParseTree) → List (Element ParseTree)
  | [] => []
  | e :: es => unqualifiedElement e :: unqualifiedElements es

/-- `ParseTree.unqualified` below one element. -/
def unqualifiedElement : Element ParseTree → Element ParseTree
  | .tree t => .tree (unqualified t)
  | .token text => .token text
  | .list ts => .list (unqualifiedTrees ts)

/-- `ParseTree.unqualified` on each tree of a list. -/
def unqualifiedTrees : List ParseTree → List ParseTree
  | [] => []
  | t :: ts => unqualified t :: unqualifiedTrees ts

end

theorem unqualifiedTrees_eq_map (ts : List ParseTree) :
    unqualifiedTrees ts = ts.map unqualified := by
  induction ts with
  | nil => rfl
  | cons t ts ih => rw [unqualifiedTrees, ih, List.map_cons]

theorem unqualifiedElement_eq_map (e : Element ParseTree) :
    unqualifiedElement e = e.map unqualified := by
  cases e <;> simp [unqualifiedElement, Element.map, unqualifiedTrees_eq_map]

theorem unqualifiedElements_eq_map (es : List (Element ParseTree)) :
    unqualifiedElements es = es.map (Element.map unqualified) := by
  induction es with
  | nil => rfl
  | cons e es ih => rw [unqualifiedElements, ih, unqualifiedElement_eq_map, List.map_cons]

@[simp] theorem unqualified_node (p : Production) (es : List (Element ParseTree)) :
    unqualified (.node p es) = .node p (withoutQualifier p (es.map (Element.map unqualified))) := by
  rw [unqualified, unqualifiedElements_eq_map]

@[simp] theorem withoutQualifier_token (p : Production) (text : String)
    (es : List (Element ParseTree)) :
    withoutQualifier p (.token text :: es) = .token text :: es := by
  simp [withoutQualifier]

@[simp] theorem withoutQualifier_of_ne {p : Production} (htype : p ≠ .referencedType)
    (hvalue : p ≠ .referencedValue) (es : List (Element ParseTree)) :
    withoutQualifier p es = es := by
  simp [withoutQualifier, htype, hvalue]

@[simp] theorem label_unqualified (t : ParseTree) : t.unqualified.label = t.label := by
  cases t
  simp

/-! ## Parts that are read -/

section Slots

variable {n : Node}

theorem accept_assignment_unqualified {a : Assignment} (h : Slot.assignment.accept n = some a) :
    Slot.assignment.accept n.unqualified = some a.unqualified := by
  rw [Slot.accept_assignment_iff] at h ⊢
  rw [h, Node.unqualified]

theorem accept_member_unqualified {m : Member TypeDecl} (h : Slot.member.accept n = some m) :
    Slot.member.accept n.unqualified = some m.unqualified := by
  rw [Slot.accept_member_iff] at h ⊢
  rw [h, Member.node_unqualified]

theorem accept_listItem_unqualified {item : ListItem (Option String)}
    (h : Slot.listItem.accept n = some item) : Slot.listItem.accept n.unqualified = some item := by
  rw [Slot.accept_listItem_iff] at h ⊢
  rw [h]
  cases item <;> rfl

theorem accept_arc_unqualified {a : ArcForm} (h : Slot.arc.accept n = some a) :
    Slot.arc.accept n.unqualified = some a := by
  rw [Slot.accept_arc_iff] at h ⊢
  rw [h]
  rfl

end Slots

/-- Without qualifiers, the tree is built to what it is built to otherwise, without qualifiers. -/
def DropsQualifiers (t : ParseTree) : Prop :=
  ∀ ⦃o s n s'⦄, t.build.Gives o s n s' → t.unqualified.build.Gives o s n.unqualified s'

variable {α : Type} {o : BuildOptions} {s s' : Nat} {t : ParseTree}

theorem threads_unqualified {slot : Slot α} {f : α → α} {ts : List ParseTree} {as : List α}
    (hslot : ∀ n a, slot.accept n = some a → slot.accept n.unqualified = some (f a))
    (hts : ∀ u ∈ ts, u.DropsQualifiers) (h : Threads (BuildsAs slot o) ts s as s') :
    Threads (BuildsAs slot o) (ts.map unqualified) s (as.map f) s' := by
  induction h with
  | nil => exact .nil _
  | cons head _ ih =>
    obtain ⟨hhead, htail⟩ := List.forall_mem_cons.1 hts
    obtain ⟨n, hn, haccept⟩ := head
    exact .cons ⟨n.unqualified, hhead hn, hslot n _ haccept⟩ (ih htail)

theorem buildsValue_unqualified {e : Element ParseTree} {v : Value}
    (he : ∀ u ∈ e.trees, u.DropsQualifiers) (h : e.BuildsValue o s v s') :
    (e.map unqualified).BuildsValue o s v.unqualified s' := by
  cases e with
  | token text =>
    obtain ⟨rfl, rfl⟩ := h
    exact ⟨rfl, rfl⟩
  | tree t =>
    obtain ⟨n, hn, haccept⟩ := h
    rw [Slot.accept_value_iff] at haccept
    refine ⟨n.unqualified, he t (by simp) hn, ?_⟩
    rw [Slot.accept_value_iff, Value.node?_unqualified, haccept, Option.map_some]
  | list ts => exact h.elim

theorem yieldsBounds_unqualified {es : List (Element ParseTree)} {b : Bounds}
    (hes : ∀ u ∈ es.flatMap Element.trees, u.DropsQualifiers) (h : YieldsBounds o es s b s') :
    YieldsBounds o (es.map (Element.map unqualified)) s b.unqualified s' := by
  obtain ⟨hlo, hhi⟩ := h
  exact ⟨buildsValue_unqualified (fun u hu => hes u (by simp [hu])) hlo,
    buildsValue_unqualified (fun u hu => hes u (by simp [hu])) hhi⟩

/-- Where the qualifier is left out, the bare name is left. -/
theorem yieldsName_unqualified {p : Production} {es : List (Element ParseTree)}
    {name : QualifiedName} (hp : p = .referencedType ∨ p = .referencedValue)
    (h : YieldsName es name) :
    YieldsName (withoutQualifier p (es.map (Element.map unqualified))) name.unqualified := by
  have hrest : ∀ q es, withoutQualifier p (.tree (.node .moduleReference q) :: es) = es := by
    intro q es
    simp [withoutQualifier, hp]
  cases h with
  | bare => simpa [QualifiedName.unqualified] using YieldsName.bare
  | qualified => simpa [QualifiedName.unqualified, hrest] using YieldsName.bare

theorem tagPart_unqualified {e : Element ParseTree} {part : Production × String}
    (h : TagPart e part) : TagPart (e.map unqualified) part := by
  obtain ⟨rest, rfl, hpart⟩ := h
  refine ⟨rest.map (Element.map unqualified), ?_, hpart⟩
  simp

theorem yieldsTag_unqualified {es : List (Element ParseTree)} {tag : TypeTag}
    (h : YieldsTag es tag) : YieldsTag (es.map (Element.map unqualified)) tag := by
  obtain ⟨parts, hparts, hlast⟩ := h
  exact ⟨parts, List.forall₂_map_left_iff.2 (hparts.imp fun _ _ => tagPart_unqualified), hlast⟩

theorem yieldsMember_unqualified {es : List (Element ParseTree)} {identifier : String}
    {type : TypeDecl} (hes : ∀ u ∈ es.flatMap Element.trees, u.DropsQualifiers)
    (h : YieldsMember o es s identifier type s') :
    YieldsMember o (es.map (Element.map unqualified)) s identifier type.unqualified s' := by
  cases h with
  | @anonymous fs _ _ _ ho ht =>
    have htype := hes (.node .type fs) (by simp) ht
    simp only [unqualified_node, withoutQualifier_of_ne (p := .type) (by decide) (by decide)]
      at htype
    simpa using YieldsMember.anonymous ho htype
  | @named _ fs u _ _ _ ht =>
    simpa using .named (hes u (by simp) ht)

/-! ## Building without qualifiers -/

/-- Building a tree commutes with leaving out the qualifiers if building all smaller trees does. -/
theorem dropsQualifiers_of_smaller (ht : ∀ u : ParseTree, sizeOf u < sizeOf t → u.DropsQualifiers) :
    t.DropsQualifiers := by
  intro o s n s' h
  have hheld : ∀ v : ParseTree, sizeOf v ≤ sizeOf t → ∀ u ∈ v.held, u.DropsQualifiers := by
    intro v hv u hu
    have := sizeOf_lt_of_mem_held hu
    exact ht u (by omega)
  have hown : ∀ u ∈ t.held, u.DropsQualifiers := hheld t le_rfl
  apply gives_of_yields
  cases yields_of_gives h with
  | wrapper hu => simpa using .wrapper (ht _ (by simp; omega) hu)
  | @module m es e₁ e₂ e₃ e₄ e₅ exports imports as _ _ has =>
    have has := threads_unqualified (fun _ _ => accept_assignment_unqualified)
      (fun u hu => hheld (.node .assignmentList (as.map .tree)) (by simp; omega) u
        (by simpa [held, List.flatMap_map] using hu)) has
    simpa [Element.map_comp_tree, Node.unqualified, Module.unqualified] using
      Yields.module (m := m.unqualified) has
  | typeAssignment hu => simpa using .typeAssignment (ht _ (by simp; omega) hu)
  | valueAssignment hu he =>
    have he := buildsValue_unqualified (fun u hu => hown u (by simp [held, hu])) he
    simpa using .valueAssignment (ht _ (by simp; omega) hu) he
  | @constructed p kind keyword ms members _ _ hp hms =>
    have hms := threads_unqualified (fun _ _ => accept_member_unqualified)
      (fun u hu => hown u (by simp [held, hu])) hms
    rw [← TypeDecl.unqualifiedMembers_eq_map] at hms
    subst hp
    cases kind <;> simpa [ConstructedKind.production] using .constructed rfl hms
  | @collection p kind es element _ _ hp hu =>
    have hu := ht (.node .type es) (by simp; omega) hu
    rw [unqualified_node, withoutQualifier_of_ne (by decide) (by decide)] at hu
    subst hp
    cases kind <;> simpa [CollectionKind.production] using .collection rfl hu
  | @sizedCollection p kind bs es size element _ _ _ hp hbs hu =>
    have hbs := yieldsBounds_unqualified (hheld (.node .sizeConstraint bs) (by simp; omega)) hbs
    have hu := ht (.node .type es) (by simp; omega) hu
    rw [unqualified_node, withoutQualifier_of_ne (by decide) (by decide)] at hu
    subst hp
    cases kind <;> simpa [CollectionKind.production] using .sizedCollection rfl hbs hu
  | tagged hgs hu => simpa using .tagged (yieldsTag_unqualified hgs) (ht _ (by simp; omega) hu)
  | taggedWithKeyword hgs hu =>
    simpa using .taggedWithKeyword (yieldsTag_unqualified hgs) (ht _ (by simp; omega) hu)
  | @constrained name bs range _ _ hbs =>
    have hbs := yieldsBounds_unqualified (hheld (.node .constraint bs) (by simp; omega)) hbs
    simpa using .constrained hbs
  | typeReference hes =>
    simpa using .typeReference (yieldsName_unqualified (.inl rfl) hes)
  | valueReference hes =>
    simpa using .valueReference (yieldsName_unqualified (.inr rfl) hes)
  | valueList hts hnumbered =>
    have hts := threads_unqualified (f := id) (fun _ _ => accept_listItem_unqualified)
      (fun u hu => hown u (by simp [held, hu])) hts
    rw [List.map_id] at hts
    simpa using .valueList hts hnumbered
  | bitString hts =>
    have hts := threads_unqualified (f := id) (fun _ _ => accept_listItem_unqualified)
      (fun u hu => hown u (by simp [held, hu])) hts
    rw [List.map_id] at hts
    simpa using .bitString hts
  | sizeConstraint hbs => simpa using .sizeConstraint (yieldsBounds_unqualified hown hbs)
  | @required ms _ _ _ _ hms =>
    have hms := yieldsMember_unqualified (hheld (.node .namedType ms) (by simp; omega)) hms
    simpa using .required hms
  | @optional ms _ _ _ _ hms =>
    have hms := yieldsMember_unqualified (hheld (.node .namedType ms) (by simp; omega)) hms
    simpa using .optional hms
  | @default ms e _ _ _ _ _ _ hms he =>
    have hms := yieldsMember_unqualified (hheld (.node .namedType ms) (by simp; omega)) hms
    have he := buildsValue_unqualified (fun u hu => hheld
      (.node .componentTypeDefault [.tree (.node .namedType ms), e]) (by simp; omega) u
      (by simp [held, hu])) he
    simpa using .default hms he
  | componentsOf hu => simpa using .componentsOf (ht _ (by simp; omega) hu)
  | namedType hms => simpa using .namedType (yieldsMember_unqualified hown hms)
  | @objectIdentifier cs _ _ _ hcs =>
    have hcs := threads_unqualified (f := id) (fun _ _ => accept_arc_unqualified)
      (fun u hu => hown u (by simpa [held, List.flatMap_map] using hu)) hcs
    rw [List.map_id] at hcs
    simpa [Element.map_comp_tree, Node.unqualified, ValueForm.unqualified] using
      Yields.objectIdentifier hcs
  -- What is left has nothing below it that is built, and no qualifiers.
  | _ =>
    simp
    constructor

theorem dropsQualifiers (t : ParseTree) : t.DropsQualifiers :=
  dropsQualifiers_of_smaller fun u _ => dropsQualifiers u
termination_by sizeOf t

end ParseTree

/-- Without the qualifiers in its parse tree, a module is built to what it is without qualifiers. -/
theorem gives_buildModule_unqualified {o : BuildOptions} {s s' : Nat} {t : ParseTree} {m : Module}
    (h : (buildModule t).Gives o s m s') :
    (buildModule t.unqualified).Gives o s m.unqualified s' := by
  obtain ⟨hlabel, hm⟩ := gives_buildModule_iff.1 h
  exact gives_buildModule_iff.2 ⟨t.label_unqualified.trans hlabel, t.dropsQualifiers hm⟩

/-- The qualifiers of references to types and values have no influence on a module. Where they are
missing in its parse tree, they are missing in the module. Its assignments refer to the same names
without them, at each position, so that they have the same graph, topological order and components,
and a failure names the same definitions. Every declaration is resolved to the same declaration, up
to qualifiers, or fails with the same error. So a name that is assigned a reference to the same name
of another module stands for nothing but itself. -/
theorem qualifiers_have_no_influence (m : Module) :
    (∀ (o : BuildOptions) (drawn drawn' : Nat) (t : ParseTree),
      (buildModule t).runFrom o drawn = (.ok m, drawn') →
        (buildModule t.unqualified).runFrom o drawn = (.ok m.unqualified, drawn')) ∧
    (m.unqualified.assignments.map Dependent.references =
      m.assignments.map Dependent.references) ∧
    (dependencyGraph m.unqualified.assignments = dependencyGraph m.assignments) ∧
    (sortedPositions m.unqualified.assignments = sortedPositions m.assignments ∧
      topologicalSort m.unqualified.assignments =
        (topologicalSort m.assignments).map (List.map Assignment.unqualified)) ∧
    (componentPositions m.unqualified.assignments = componentPositions m.assignments ∧
      dependencySort m.unqualified.assignments =
        (dependencySort m.assignments).map (List.map Assignment.unqualified)) ∧
    (∀ d, m.unqualified.resolve d.unqualified = (m.resolve d).map TypeDecl.unqualified) ∧
    (∀ name q q', m.lastDeclaration? name = some (.reference ⟨q, name⟩) →
      m.resolve (.reference ⟨q', name⟩) = .error (.recursive [name, name])) := by
  have hname := Assignment.name_unqualified
  have hreferences := Assignment.references_unqualified
  obtain ⟨hcomponents, hsorted⟩ := positions_map hname hreferences m.assignments
  refine ⟨fun o drawn drawn' t h => gives_buildModule_unqualified h, ?_,
    dependencyGraph_map hname hreferences _,
    ⟨hsorted, topologicalSort_map hname hreferences _⟩,
    ⟨hcomponents, dependencySort_map hname hreferences _⟩,
    fun d => m.resolveAfter_unqualified [] d,
    fun name q q' h => Module.resolve_of_self_reference q' h⟩
  rw [Module.unqualified, List.map_map]
  exact List.map_congr_left fun a _ => hreferences a

/-- `T ::= Other.T` is taken for `T ::= T`. -/
theorem qualifiers_have_no_influence_self_reference :
    let m : Module := ⟨"M", [.type "T" (.reference ⟨some "Other", "T"⟩)]⟩
    let tree := fun reference : List (Element ParseTree) => (.node .moduleDefinition
      [.tree (.node .moduleReference [.token "M"]), .token "DEFINITIONS", .token "", .token "",
        .token "::=", .tree (.node .moduleBody [.token "", .token "", .tree (.node .assignmentList
          [.tree (.node .typeAssignment [.token "T", .token "::=",
            .tree (.node .referencedType reference)])])]), .token "END"] : ParseTree)
    (buildModule (tree [.tree (.node .moduleReference [.token "Other"]), .token "T"])).runFrom {} 0 =
        (.ok m, 0) ∧
      (buildModule (tree [.token "T"])).runFrom {} 0 = (.ok m.unqualified, 0) ∧
      m.lastDeclaration? "T" = some (.reference ⟨some "Other", "T"⟩) ∧
      m.resolve (.reference ⟨some "Other", "T"⟩) = .error (.recursive ["T", "T"]) := by
  intro m tree
  have hbuilt : (buildModule (tree [.tree (.node .moduleReference [.token "Other"]),
      .token "T"])).runFrom {} 0 = (.ok m, 0) := rfl
  obtain ⟨hunqualified, -, -, -, -, -, hself⟩ := qualifiers_have_no_influence m
  exact ⟨hbuilt, hunqualified {} 0 0 _ hbuilt, rfl, hself "T" _ _ rfl⟩

end AsnModel
