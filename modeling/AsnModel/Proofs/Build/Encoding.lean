import AsnModel.Proofs.Build.Numbering
import AsnModel.Proofs.Build.Yields

/-!
# The canonical parse tree of a model

Every model has a parse tree of which it is built. In this tree every type is wrapped, every member
has an identifier, every number is written, and what is absent from the model is absent.

## Main definitions

* `Node.encode` — the parse tree of any part of a model, with an `encode` for each kind of part.
* `Node.Built` — a part of a model that comes from some parse tree.
-/

namespace AsnModel

/-! ## Encoding -/

/-- An identifier with what it names. -/
def encodeNamed (identifier : String) (t : ParseTree) : List (Element ParseTree) :=
  [.tree (.node .identifier [.token identifier]), .tree t]

/-- A name, in a node of the given production. -/
def QualifiedName.encode (p : Production) (n : QualifiedName) : ParseTree :=
  match n.qualifier with
  | none => .node p [.token n.name]
  | some qualifier => .node p [.tree (.node .moduleReference [.token qualifier]), .token n.name]

def ArcForm.encode : ArcForm → ParseTree
  | .name text => .node .nameForm [.token text]
  | .number text => .node .numberForm [.token text]
  | .nameAndNumber arc value =>
    .node .nameAndNumberForm
      [.tree (.node .nameForm [.token arc]), .tree (.node .numberForm [.token value])]

def ValueForm.encode : ValueForm → ParseTree
  | .reference name => name.encode .referencedValue
  | .objectIdentifier components =>
    .node .objectIdentifierValue ((components.map ArcForm.encode).map .tree)
  | .binaryString digits => .node .binaryStringValue [.token digits]
  | .hexString digits => .node .hexStringValue [.token digits]

/-- A literal is a token, and any other value a tree. -/
def Value.encode : Value → Element ParseTree
  | .literal text => .token text
  | .form f => .tree f.encode

/-- Two bounds, in a node of the given production. -/
def Bounds.encode (p : Production) (b : Bounds) : ParseTree := .node p [b.min.encode, b.max.encode]

def TypeTag.encode (t : TypeTag) : ParseTree :=
  .node .tag (.tree (.node .tagClassNumber [.token t.number]) ::
    (t.className.map fun c => .tree (.node .tagClass [.token c])).toList)

def ListItem.encode : ListItem (Option String) → ParseTree
  | .named identifier none => .node .namedValue [.token identifier]
  | .named identifier (some value) =>
    .node .namedValue (encodeNamed identifier (.node .value [.token value]))
  | .extension => .node .extensionMarker []

/-- A list of named values behind the name of the type, if there is one. -/
def encodeItems (p : Production) (name : String)
    (items : Option (List (ListItem (Option String)))) : ParseTree :=
  .node p (.token name :: (items.map fun is => .list (is.map ListItem.encode)).toList)

/-- A component that is a named type. -/
def Presence.encode (named : ParseTree) : Presence → ParseTree
  | .required => named
  | .optional => .node .componentTypeOptional [.tree named]
  | .default value => .node .componentTypeDefault [.tree named, value.encode]

/-- A tree in a generic type wrapper. -/
def ParseTree.wrapped (t : ParseTree) : ParseTree := .node .type [.tree t]

mutual

def TypeDecl.encode : TypeDecl → ParseTree
  | .constructed kind keyword members =>
    .wrapped (.node kind.production [.token keyword, .list (TypeDecl.encodeMembers members)])
  | .collection kind none element => .wrapped (.node kind.production [.tree element.encode])
  | .collection kind (some size) element =>
    .wrapped (.node kind.production [.tree (size.encode .sizeConstraint), .tree element.encode])
  | .tagged tag false type => .wrapped (.node .taggedType [.tree tag.encode, .tree type.encode])
  | .tagged tag true type =>
    .wrapped (.node .taggedType [.tree tag.encode, .token "IMPLICIT", .tree type.encode])
  | .simple name none => .wrapped (.node .simpleType [.token name])
  | .simple name (some range) =>
    .wrapped (.node .simpleType [.token name, .tree (range.encode .constraint)])
  | .reference name => .wrapped (name.encode .referencedType)
  | .valueList name items =>
    .wrapped (encodeItems .valueListType name (items.map (·.map (·.map some))))
  | .bitString name items => .wrapped (encodeItems .bitStringType name items)

def TypeDecl.encodeMembers : List (Member TypeDecl) → List ParseTree
  | [] => []
  | m :: ms => m.encode :: TypeDecl.encodeMembers ms

def Member.encode : Member TypeDecl → ParseTree
  | .component c => c.encode
  | .alternative identifier type => .node .namedType (encodeNamed identifier type.encode)
  | .extension => .node .extensionMarker []

def Component.encode : Component TypeDecl → ParseTree
  | .named identifier type presence =>
    .node .componentType
      [.tree (presence.encode (.node .namedType (encodeNamed identifier type.encode)))]
  | .componentsOf type =>
    .node .componentType [.tree (.node .componentTypeComponentsOf [.tree type.encode])]

end

def Assignment.encode : Assignment → ParseTree
  | .type n t => .node .typeAssignment [.token n, .token "::=", .tree t.encode]
  | .value n t v => .node .valueAssignment [.token n, .tree t.encode, .token "::=", v.encode]

/-- A module with automatic tags, which exports and imports nothing. -/
def Module.encode (m : Module) : ParseTree :=
  .node .moduleDefinition
    [.tree (.node .moduleReference [.token m.name]), .token "DEFINITIONS",
     .token "AUTOMATIC TAGS", .token "", .token "::=",
     .tree (.node .moduleBody [.tree (.node .exports []), .tree (.node .imports []),
       .tree (.node .assignmentList ((m.assignments.map Assignment.encode).map .tree))]),
     .token "END"]

/-- The canonical parse tree of any part of a model. -/
def Node.encode : Node → ParseTree
  | .module m => m.encode
  | .assignment a => a.encode
  | .type t => t.encode
  | .constraint b => b.encode .constraint
  | .sizeConstraint b => b.encode .sizeConstraint
  | .component c => c.encode
  | .namedType identifier t => (Member.alternative identifier t).encode
  | .namedValue identifier v => (ListItem.named identifier v).encode
  | .extensionMarker => .node .extensionMarker []
  | .value f => f.encode
  | .arc a => a.encode

/-- The node can be built, in whatever way. -/
def Node.Built (n : Node) : Prop :=
  ∃ (o : BuildOptions) (drawn drawn' : Nat) (t : ParseTree),
    t.build.runFrom o drawn = (.ok n, drawn')

/-! ## Building again -/

open ParseTree

variable {o : BuildOptions} {s : Nat}

theorem gives_wrapped {t : ParseTree} {n : Node} (h : Yields o t s n s) :
    t.wrapped.build.Gives o s n s :=
  gives_of_yields (.wrapper (gives_of_yields h))

theorem QualifiedName.exists_encode_eq (p : Production) (name : QualifiedName) :
    ∃ es, name.encode p = .node p es ∧ YieldsName es name := by
  obtain ⟨_ | qualifier, name⟩ := name
  · exact ⟨_, rfl, .bare⟩
  · exact ⟨_, rfl, .qualified⟩

theorem gives_encode_arc (a : ArcForm) : a.encode.build.Gives o s (.arc a) s := by
  cases a with
  | name text => exact gives_of_yields .nameForm
  | number text => exact gives_of_yields .numberForm
  | nameAndNumber arc value => exact gives_of_yields .nameAndNumber

theorem gives_encode_form (f : ValueForm) : f.encode.build.Gives o s (.value f) s := by
  cases f with
  | reference name =>
    obtain ⟨es, hes, hname⟩ := name.exists_encode_eq .referencedValue
    rw [ValueForm.encode, hes]
    exact gives_of_yields (.valueReference hname)
  | objectIdentifier components =>
    exact gives_of_yields (.objectIdentifier
      (Threads.map_self fun a _ => ⟨_, gives_encode_arc a, rfl⟩))
  | binaryString digits => exact gives_of_yields .binaryString
  | hexString digits => exact gives_of_yields .hexString

theorem buildsValue_encode (v : Value) : v.encode.BuildsValue o s v s := by
  cases v with
  | literal text => exact ⟨rfl, rfl⟩
  | form f => exact ⟨_, gives_encode_form f, rfl⟩

theorem yieldsBounds_encode (b : Bounds) : YieldsBounds o [b.min.encode, b.max.encode] s b s :=
  .mk (buildsValue_encode b.min) (buildsValue_encode b.max)

theorem TypeTag.exists_encode_eq (tag : TypeTag) :
    ∃ es, tag.encode = .node .tag es ∧ YieldsTag es tag := by
  obtain ⟨_ | className, number⟩ := tag
  · exact ⟨_, rfl, [(.tagClassNumber, number)], .cons ⟨[], rfl, .inl rfl⟩ .nil, rfl, rfl⟩
  · exact ⟨_, rfl, [(.tagClassNumber, number), (.tagClass, className)],
      .cons ⟨[], rfl, .inl rfl⟩ (.cons ⟨[], rfl, .inr rfl⟩ .nil), rfl, rfl⟩

theorem gives_encode_item (i : ListItem (Option String)) : i.encode.build.Gives o s i.node s := by
  rcases i with ⟨identifier, _ | value⟩ | _
  · exact gives_of_yields .namedValue
  · exact gives_of_yields .numberedValue
  · exact gives_of_yields .extensionMarker

theorem threads_encode_items (is : List (ListItem (Option String))) :
    Threads (BuildsAs .listItem o) (is.map ListItem.encode) s is s :=
  Threads.map_self fun i _ => ⟨_, gives_encode_item i, by simp⟩

theorem gives_encode_valueList (name : String) (items : Option (List (ListItem String))) :
    (TypeDecl.valueList name items).encode.build.Gives o s (.type (.valueList name items)) s := by
  cases items with
  | none => exact gives_wrapped .valueListName
  | some items =>
    exact gives_wrapped (.valueList (threads_encode_items _) (numberItemsAfter_map_some none items))

theorem gives_encode_bitString (name : String) (items : Option (List (ListItem (Option String)))) :
    (TypeDecl.bitString name items).encode.build.Gives o s (.type (.bitString name items)) s := by
  cases items with
  | none => exact gives_wrapped .bitStringName
  | some items => exact gives_wrapped (.bitString (threads_encode_items items))

theorem gives_encode_component {identifier : String} {t : ParseTree} {type : TypeDecl}
    (presence : Presence) (ht : t.build.Gives o s (.type type) s) :
    (build (.node .componentType
      [.tree (presence.encode (.node .namedType (encodeNamed identifier t)))])).Gives o s
      (.component (.named identifier type presence)) s := by
  have hmember : YieldsMember o (encodeNamed identifier t) s identifier type s := .named ht
  cases presence with
  | required => exact gives_of_yields (.required hmember)
  | optional => exact gives_of_yields (.optional hmember)
  | default v => exact gives_of_yields (.default hmember (buildsValue_encode v))

theorem TypeDecl.exists_encode_eq (t : TypeDecl) : ∃ es, t.encode = .node .type es := by
  fun_cases TypeDecl.encode t <;> exact ⟨_, rfl⟩

mutual

theorem gives_encode_type : ∀ t : TypeDecl, t.encode.build.Gives o s (.type t) s
  | .constructed _ _ members => gives_wrapped (.constructed rfl (threads_encode_members members))
  | .collection _ none element => by
    -- Only a wrapped element type is accepted here, which every encoded type is.
    have helement := gives_encode_type element
    obtain ⟨es, hes⟩ := element.exists_encode_eq
    rw [TypeDecl.encode, hes]
    exact gives_wrapped (.collection rfl (hes ▸ helement))
  | .collection _ (some size) element => by
    have helement := gives_encode_type element
    obtain ⟨es, hes⟩ := element.exists_encode_eq
    rw [TypeDecl.encode, hes]
    exact gives_wrapped (.sizedCollection rfl (yieldsBounds_encode size) (hes ▸ helement))
  | .tagged tag false type => by
    obtain ⟨es, hes, htag⟩ := tag.exists_encode_eq
    rw [TypeDecl.encode, hes]
    exact gives_wrapped (.tagged htag (gives_encode_type type))
  | .tagged tag true type => by
    obtain ⟨es, hes, htag⟩ := tag.exists_encode_eq
    rw [TypeDecl.encode, hes]
    exact gives_wrapped (.taggedWithKeyword htag (gives_encode_type type))
  | .simple _ none => gives_wrapped .simple
  | .simple _ (some range) => gives_wrapped (.constrained (yieldsBounds_encode range))
  | .reference name => by
    obtain ⟨es, hes, hname⟩ := name.exists_encode_eq .referencedType
    rw [TypeDecl.encode, hes]
    exact gives_wrapped (.typeReference hname)
  | .valueList name items => gives_encode_valueList name items
  | .bitString name items => gives_encode_bitString name items

theorem threads_encode_members : ∀ ms : List (Member TypeDecl),
    Threads (BuildsAs .member o) (TypeDecl.encodeMembers ms) s ms s
  | [] => .nil s
  | m :: ms => .cons ⟨_, gives_encode_member m, by simp⟩ (threads_encode_members ms)

theorem gives_encode_member : ∀ m : Member TypeDecl, m.encode.build.Gives o s m.node s
  | .component (.named _ type presence) =>
    gives_encode_component presence (gives_encode_type type)
  | .component (.componentsOf type) => gives_of_yields (.componentsOf (gives_encode_type type))
  | .alternative _ type => gives_of_yields (.namedType (.named (gives_encode_type type)))
  | .extension => gives_of_yields .extensionMarker

end

theorem gives_encode_assignment (a : Assignment) :
    a.encode.build.Gives o s (.assignment a) s := by
  cases a with
  | type n t => exact gives_of_yields (.typeAssignment (gives_encode_type t))
  | value n t v =>
    exact gives_of_yields (.valueAssignment (gives_encode_type t) (buildsValue_encode v))

theorem gives_encode_module (m : Module) : m.encode.build.Gives o s (.module m) s :=
  gives_of_yields (.module
    (Threads.map_self fun a _ => ⟨_, gives_encode_assignment a, by simp⟩))

theorem gives_encode {n : Node} (hn : n.production ≠ .constraint) :
    n.encode.build.Gives o s n s := by
  cases n with
  | module m => exact gives_encode_module m
  | assignment a => exact gives_encode_assignment a
  | type t => exact gives_encode_type t
  | constraint b => exact absurd rfl hn
  | sizeConstraint b => exact gives_of_yields (.sizeConstraint (yieldsBounds_encode b))
  | component c => exact gives_encode_member (.component c)
  | namedType identifier t => exact gives_encode_member (.alternative identifier t)
  | namedValue identifier v => exact gives_encode_item (.named identifier v)
  | extensionMarker => exact gives_of_yields .extensionMarker
  | value f => exact gives_encode_form f
  | arc a => exact gives_encode_arc a

/-- A range is not built by itself. -/
theorem production_ne_constraint {s' : Nat} {t : ParseTree} {n : Node}
    (h : t.build.Gives o s n s') : n.production ≠ .constraint := by
  rw [production_eq h]
  exact label_ne_of_gives rfl (gives_unwrapped h)

/-- Encoding undoes building: whatever has been built is built again of its canonical parse tree, by
every builder and without a generated name. The canonical parse tree therefore tells models apart,
and building the canonical parse tree of what a tree is built to adds nothing. -/
theorem build_encode :
    (∀ n : Node, n.Built → ∀ (o : BuildOptions) (drawn : Nat),
      n.encode.build.runFrom o drawn = (.ok n, drawn)) ∧
    (∀ n m : Node, n.Built → m.Built → n.encode = m.encode → n = m) ∧
    ∀ (t : ParseTree) (o : BuildOptions) (drawn : Nat),
      (t.build >>= fun n => n.encode.build).runFrom o drawn = t.build.runFrom o drawn := by
  have hbuild : ∀ n : Node, n.Built → ∀ (o : BuildOptions) (drawn : Nat),
      n.encode.build.runFrom o drawn = (.ok n, drawn) := by
    rintro n ⟨o, drawn, drawn', t, h⟩ o' drawn₀
    exact gives_encode (production_ne_constraint h)
  refine ⟨hbuild, fun n m hn hm heq => ?_, fun t o drawn => ?_⟩
  · have h := hbuild n hn {} 0
    rw [heq, hbuild m hm {} 0] at h
    simpa using h.symm
  · rw [BuildM.runFrom_bind]
    rcases h : t.build.runFrom o drawn with ⟨_ | n, drawn'⟩
    · rfl
    · exact hbuild n ⟨o, drawn, drawn', t, h⟩ o drawn'

/-- The member `NULL` is built again with the name that it got. -/
theorem build_encode_anonymous :
    (Node.namedType "unnamed1" (.simple "NULL" none)).encode.build.runFrom ⟨false, ""⟩ 5 =
      (.ok (.namedType "unnamed1" (.simple "NULL" none)), 5) :=
  build_encode.1 _ ⟨{}, 0, 1, .node .namedType
    [.tree (.node .type [.tree (.node .simpleType [.token "NULL"])])], by rfl⟩ ⟨false, ""⟩ 5

end AsnModel
