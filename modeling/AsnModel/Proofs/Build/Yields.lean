import AsnModel.Proofs.Build.Shape

/-!
# What trees are built to

Building in one relation, with a constructor for each shape that a tree can have. The trees below
are built in turn, and what they are built to stands in the places of the result.

## Main definitions

* `ParseTree.unwrapped` — what stands inside all generic type wrappers.
* `ParseTree.Yields` — what a tree is built to, from what the trees below it are built to.
* `ParseTree.YieldsName`, `ParseTree.YieldsBounds`, `ParseTree.YieldsTag`, `ParseTree.YieldsMember`
  — the same for the parts of a tree that are not nodes of the model.
-/

namespace AsnModel

namespace Element

variable {τ : Type}

/-- The trees that an element holds directly. -/
def trees : Element τ → List τ
  | .tree t => [t]
  | .token _ => []
  | .list ts => ts

@[simp] theorem trees_tree (t : τ) : (tree t).trees = [t] := rfl

@[simp] theorem trees_token (text : String) : (token text : Element τ).trees = [] := rfl

@[simp] theorem trees_list (ts : List τ) : (list ts).trees = ts := rfl

end Element

/-- The production of a type with members between braces. -/
def ConstructedKind.production : ConstructedKind → Production
  | .sequence => .sequenceType
  | .set => .setType
  | .choice => .choiceType

/-- The production of a type that repeats an element type. -/
def CollectionKind.production : CollectionKind → Production
  | .sequenceOf => .sequenceOfType
  | .setOf => .setOfType

namespace ParseTree

open Reading

/-! ## Trees below a tree -/

/-- The trees that the elements of a tree hold directly. -/
def held (t : ParseTree) : List ParseTree := t.elements.flatMap Element.trees

theorem sizeOf_lt_of_mem_held {t u : ParseTree} (h : u ∈ t.held) : sizeOf u < sizeOf t := by
  obtain ⟨l, es⟩ := t
  obtain ⟨e, he, hu⟩ := List.mem_flatMap.1 h
  have := List.sizeOf_lt_of_mem he
  have : sizeOf u ≤ sizeOf e := by
    cases e with
    | tree t =>
      obtain rfl : u = t := by simpa using hu
      simp
    | token text => simp at hu
    | list ts =>
      have := List.sizeOf_lt_of_mem (show u ∈ ts from hu)
      simp; omega
  simp at *; omega

/-- What stands inside all generic type wrappers. -/
def unwrapped : ParseTree → ParseTree
  | .node .type (.tree t :: _) => unwrapped t
  | t => t

/-! ## Shapes -/

/-- A name, possibly qualified by a module. -/
inductive YieldsName : List (Element ParseTree) → QualifiedName → Prop where
  | bare {name : String} : YieldsName [.token name] ⟨none, name⟩
  | qualified {qualifier name : String} {es : List (Element ParseTree)} :
    YieldsName [.tree (.node .moduleReference (.token qualifier :: es)), .token name]
      ⟨some qualifier, name⟩

/-- A tag. Of several numbers and classes the last ones hold. -/
def YieldsTag (es : List (Element ParseTree)) (tag : TypeTag) : Prop :=
  ∃ parts, List.Forall₂ TagPart es parts ∧
    lastPart? .tagClassNumber parts = some tag.number ∧ lastPart? .tagClass parts = tag.className

variable (o : BuildOptions)

/-- Two bounds. -/
inductive YieldsBounds : List (Element ParseTree) → Nat → Bounds → Nat → Prop where
  | mk {lo hi : Element ParseTree} {min max : Value} {s s₁ s' : Nat}
      (hlo : lo.BuildsValue o s min s₁) (hhi : hi.BuildsValue o s₁ max s') :
    YieldsBounds [lo, hi] s ⟨min, max⟩ s'

/-- An identifier and a type. Without an identifier, the next generated name is drawn. -/
inductive YieldsMember : List (Element ParseTree) → Nat → String → TypeDecl → Nat → Prop where
  | anonymous {es : List (Element ParseTree)} {type : TypeDecl} {s s' : Nat}
      (ho : o.nameAnonymous = true)
      (ht : (build (.node .type es)).Gives o (s + 1) (.type type) s') :
    YieldsMember [.tree (.node .type es)] s (BuildM.placeholderName o.stem (s + 1)) type s'
  | named {identifier : String} {es : List (Element ParseTree)} {t : ParseTree} {type : TypeDecl}
      {s s' : Nat} (ht : t.build.Gives o s (.type type) s') :
    YieldsMember [.tree (.node .identifier (.token identifier :: es)), .tree t] s identifier type s'

/-- The tree is built to the node, and `s'` numbers have been drawn by then if there were `s`
before. -/
inductive Yields : ParseTree → Nat → Node → Nat → Prop where
  | wrapper {t : ParseTree} {es : List (Element ParseTree)} {n : Node} {s s' : Nat}
      (ht : t.build.Gives o s n s') :
    Yields (.node .type (.tree t :: es)) s n s'
  | module {m : Module} {es : List (Element ParseTree)}
      {e₁ e₂ e₃ e₄ e₅ exports imports : Element ParseTree} {as : List ParseTree} {s s' : Nat}
      (has : Threads (BuildsAs .assignment o) as s m.assignments s') :
    Yields (.node .moduleDefinition
      [.tree (.node .moduleReference (.token m.name :: es)), e₁, e₂, e₃, e₄,
       .tree (.node .moduleBody [exports, imports, .tree (.node .assignmentList (as.map .tree))]),
       e₅]) s (.module m) s'
  | typeAssignment {name sign : String} {t : ParseTree} {type : TypeDecl} {s s' : Nat}
      (ht : t.build.Gives o s (.type type) s') :
    Yields (.node .typeAssignment [.token name, .token sign, .tree t]) s
      (.assignment (.type name type)) s'
  | valueAssignment {name sign : String} {t : ParseTree} {e : Element ParseTree} {type : TypeDecl}
      {v : Value} {s s₁ s' : Nat} (ht : t.build.Gives o s (.type type) s₁)
      (he : e.BuildsValue o s₁ v s') :
    Yields (.node .valueAssignment [.token name, .tree t, .token sign, e]) s
      (.assignment (.value name type v)) s'
  | constructed {p : Production} {kind : ConstructedKind} {keyword : String} {ms : List ParseTree}
      {members : List (Member TypeDecl)} {s s' : Nat} (hp : p = kind.production)
      (hms : Threads (BuildsAs .member o) ms s members s') :
    Yields (.node p [.token keyword, .list ms]) s
      (.type (.constructed kind keyword members)) s'
  | collection {p : Production} {kind : CollectionKind} {es : List (Element ParseTree)}
      {element : TypeDecl} {s s' : Nat} (hp : p = kind.production)
      (ht : (build (.node .type es)).Gives o s (.type element) s') :
    Yields (.node p [.tree (.node .type es)]) s
      (.type (.collection kind none element)) s'
  | sizedCollection {p : Production} {kind : CollectionKind} {bs es : List (Element ParseTree)}
      {size : Bounds} {element : TypeDecl} {s s₁ s' : Nat} (hp : p = kind.production)
      (hbs : YieldsBounds o bs s size s₁)
      (ht : (build (.node .type es)).Gives o s₁ (.type element) s') :
    Yields (.node p [.tree (.node .sizeConstraint bs), .tree (.node .type es)]) s
      (.type (.collection kind (some size) element)) s'
  | tagged {gs : List (Element ParseTree)} {tag : TypeTag} {t : ParseTree} {type : TypeDecl}
      {s s' : Nat} (hgs : YieldsTag gs tag) (ht : t.build.Gives o s (.type type) s') :
    Yields (.node .taggedType [.tree (.node .tag gs), .tree t]) s
      (.type (.tagged tag false type)) s'
  | taggedWithKeyword {gs : List (Element ParseTree)} {tag : TypeTag} {keyword : String}
      {t : ParseTree} {type : TypeDecl} {s s' : Nat} (hgs : YieldsTag gs tag)
      (ht : t.build.Gives o s (.type type) s') :
    Yields (.node .taggedType [.tree (.node .tag gs), .token keyword, .tree t]) s
      (.type (.tagged tag (keyword = "IMPLICIT") type)) s'
  | simple {name : String} {s : Nat} :
    Yields (.node .simpleType [.token name]) s (.type (.simple name none)) s
  | constrained {name : String} {bs : List (Element ParseTree)} {range : Bounds} {s s' : Nat}
      (hbs : YieldsBounds o bs s range s') :
    Yields (.node .simpleType [.token name, .tree (.node .constraint bs)]) s
      (.type (.simple name (some range))) s'
  | typeReference {es : List (Element ParseTree)} {name : QualifiedName} {s : Nat}
      (hes : YieldsName es name) :
    Yields (.node .referencedType es) s (.type (.reference name)) s
  | valueListName {name : String} {s : Nat} :
    Yields (.node .valueListType [.token name]) s (.type (.valueList name none)) s
  | valueList {name : String} {ts : List ParseTree} {items : List (ListItem (Option String))}
      {numbered : List (ListItem String)} {s s' : Nat}
      (hts : Threads (BuildsAs .listItem o) ts s items s')
      (hnumbered : numberItems items = .ok numbered) :
    Yields (.node .valueListType [.token name, .list ts]) s
      (.type (.valueList name (some numbered))) s'
  | bitStringName {name : String} {s : Nat} :
    Yields (.node .bitStringType [.token name]) s (.type (.bitString name none)) s
  | bitString {name : String} {ts : List ParseTree} {items : List (ListItem (Option String))}
      {s s' : Nat} (hts : Threads (BuildsAs .listItem o) ts s items s') :
    Yields (.node .bitStringType [.token name, .list ts]) s
      (.type (.bitString name (some items))) s'
  | sizeConstraint {bs : List (Element ParseTree)} {size : Bounds} {s s' : Nat}
      (hbs : YieldsBounds o bs s size s') :
    Yields (.node .sizeConstraint bs) s (.sizeConstraint size) s'
  | required {ms : List (Element ParseTree)} {identifier : String} {type : TypeDecl} {s s' : Nat}
      (hms : YieldsMember o ms s identifier type s') :
    Yields (.node .componentType [.tree (.node .namedType ms)]) s
      (.component (.named identifier type .required)) s'
  | optional {ms : List (Element ParseTree)} {identifier : String} {type : TypeDecl} {s s' : Nat}
      (hms : YieldsMember o ms s identifier type s') :
    Yields (.node .componentType
      [.tree (.node .componentTypeOptional [.tree (.node .namedType ms)])]) s
      (.component (.named identifier type .optional)) s'
  | default {ms : List (Element ParseTree)} {e : Element ParseTree} {identifier : String}
      {type : TypeDecl} {v : Value} {s s₁ s' : Nat} (hms : YieldsMember o ms s identifier type s₁)
      (he : e.BuildsValue o s₁ v s') :
    Yields (.node .componentType
      [.tree (.node .componentTypeDefault [.tree (.node .namedType ms), e])]) s
      (.component (.named identifier type (.default v))) s'
  | componentsOf {t : ParseTree} {type : TypeDecl} {s s' : Nat}
      (ht : t.build.Gives o s (.type type) s') :
    Yields (.node .componentType [.tree (.node .componentTypeComponentsOf [.tree t])]) s
      (.component (.componentsOf type)) s'
  | namedType {ms : List (Element ParseTree)} {identifier : String} {type : TypeDecl} {s s' : Nat}
      (hms : YieldsMember o ms s identifier type s') :
    Yields (.node .namedType ms) s (.namedType identifier type) s'
  | namedValue {identifier : String} {s : Nat} :
    Yields (.node .namedValue [.token identifier]) s (.namedValue identifier none) s
  | numberedValue {identifier number : String} {p : Production} {es : List (Element ParseTree)}
      {s : Nat} :
    Yields (.node .namedValue [.tree (.node .identifier (.token identifier :: es)),
      .tree (.node p [.token number])]) s (.namedValue identifier (some number)) s
  | extensionMarker {es : List (Element ParseTree)} {s : Nat} :
    Yields (.node .extensionMarker es) s .extensionMarker s
  | valueReference {es : List (Element ParseTree)} {name : QualifiedName} {s : Nat}
      (hes : YieldsName es name) :
    Yields (.node .referencedValue es) s (.value (.reference name)) s
  | objectIdentifier {cs : List ParseTree} {components : List ArcForm} {s s' : Nat}
      (hcs : Threads (BuildsAs .arc o) cs s components s') :
    Yields (.node .objectIdentifierValue (cs.map .tree)) s
      (.value (.objectIdentifier components)) s'
  | binaryString {digits : String} {s : Nat} :
    Yields (.node .binaryStringValue [.token digits]) s (.value (.binaryString digits)) s
  | hexString {digits : String} {s : Nat} :
    Yields (.node .hexStringValue [.token digits]) s (.value (.hexString digits)) s
  | nameForm {name : String} {s : Nat} :
    Yields (.node .nameForm [.token name]) s (.arc (.name name)) s
  | numberForm {number : String} {s : Nat} :
    Yields (.node .numberForm [.token number]) s (.arc (.number number)) s
  | nameAndNumber {name number : String} {s : Nat} :
    Yields (.node .nameAndNumberForm [.tree (.node .nameForm [.token name]),
      .tree (.node .numberForm [.token number])]) s (.arc (.nameAndNumber name number)) s

/-! ## Reading and building -/

variable {o} {t : ParseTree} {s s' : Nat}

theorem reads_qualifiedName_iff {name : QualifiedName} :
    t.Reads qualifiedName o s name s' ↔ YieldsName t.elements name ∧ s' = s := by
  obtain ⟨l, es⟩ := t
  obtain ⟨qualifier, name⟩ := name
  rw [reads_qualifiedName]
  constructor
  · rintro ⟨rfl, ⟨rfl, rfl⟩ | ⟨q, rest, rfl, rfl⟩⟩
    · exact ⟨.bare, rfl⟩
    · exact ⟨.qualified, rfl⟩
  · rintro ⟨h, rfl⟩
    cases h with
    | bare => exact ⟨rfl, .inl ⟨rfl, rfl⟩⟩
    | qualified => exact ⟨rfl, .inr ⟨_, _, rfl, rfl⟩⟩

theorem reads_bounds_iff {b : Bounds} :
    t.Reads bounds o s b s' ↔ YieldsBounds o t.elements s b s' := by
  obtain ⟨l, es⟩ := t
  rw [reads_bounds]
  constructor
  · rintro ⟨lo, hi, s₁, rfl, hlo, hhi⟩
    exact .mk hlo hhi
  · rintro ⟨hlo, hhi⟩
    exact ⟨_, _, _, rfl, hlo, hhi⟩

theorem reads_typeTag_iff {tag : TypeTag} :
    t.Reads typeTag o s tag s' ↔ YieldsTag t.elements tag ∧ s' = s := by
  rw [reads_typeTag, and_comm]
  rfl

theorem reads_namedType_iff {identifier : String} {type : TypeDecl} :
    t.Reads namedType o s (identifier, type) s' ↔
      YieldsMember o t.elements s identifier type s' := by
  obtain ⟨l, es⟩ := t
  rw [reads_namedType]
  constructor
  · rintro (⟨us, rfl, ho, rfl, hu⟩ | ⟨rest, u, rfl, hu⟩)
    · exact .anonymous ho hu
    · exact .named hu
  · intro h
    cases h with
    | anonymous ho ht => exact .inl ⟨_, rfl, ho, rfl, ht⟩
    | named ht => exact .inr ⟨_, _, rfl, ht⟩

theorem yields_of_reads_component {es : List (Element ParseTree)} {c : Component TypeDecl}
    (h : Reads (.node .componentType es) component o s c s') :
    Yields o (.node .componentType es) s (.component c) s' := by
  obtain ⟨l, fs, rfl, hform⟩ := reads_component.1 h
  rcases hform with ⟨rfl, h⟩ | ⟨rfl, h⟩ | ⟨rfl, h⟩ | ⟨rfl, h⟩
  · obtain ⟨identifier, type, hm, rfl⟩ := reads_requiredComponent.1 h
    exact .required (reads_namedType_iff.1 hm)
  · obtain ⟨ms, identifier, type, rfl, hm, rfl⟩ := reads_optionalComponent.1 h
    exact .optional (reads_namedType_iff.1 hm)
  · obtain ⟨ms, e, identifier, type, v, s₁, rfl, hm, he, rfl⟩ := reads_defaultComponent.1 h
    exact .default (reads_namedType_iff.1 hm) he
  · obtain ⟨u, type, rfl, hu, rfl⟩ := reads_includedComponents.1 h
    exact .componentsOf hu

theorem yields_of_reads_constructed {kind : ConstructedKind} {es : List (Element ParseTree)}
    {type : TypeDecl} (h : Reads (.node kind.production es) (constructed kind) o s type s') :
    Yields o (.node kind.production es) s (.type type) s' := by
  obtain ⟨keyword, ts, members, rfl, hms, rfl⟩ := reads_constructed.1 h
  exact .constructed rfl hms

theorem yields_of_reads_collection {kind : CollectionKind} {es : List (Element ParseTree)}
    {type : TypeDecl} (h : Reads (.node kind.production es) (collection kind) o s type s') :
    Yields o (.node kind.production es) s (.type type) s' := by
  rcases reads_collection.1 h with ⟨us, element, rfl, hu, rfl⟩ |
    ⟨bs, us, size, element, s₁, rfl, hsize, hu, rfl⟩
  · exact .collection rfl hu
  · exact .sizedCollection rfl (reads_bounds_iff.1 hsize) hu

theorem yields_of_gives {n : Node} (h : t.build.Gives o s n s') : Yields o t s n s' := by
  rw [gives_build_iff] at h
  obtain ⟨l, es⟩ := t
  cases l <;> simp [rule] at h
  case type =>
    obtain ⟨u, rest, rfl, hu⟩ := reads_wrapper.1 h
    exact .wrapper hu
  case moduleDefinition =>
    obtain ⟨m, h, rfl⟩ := h
    obtain ⟨rest, e₁, e₂, e₃, e₄, e₅, exports, imports, as, rfl, has⟩ := reads_module.1 h
    exact .module has
  case typeAssignment =>
    obtain ⟨a, h, rfl⟩ := h
    obtain ⟨name, sign, u, type, rfl, hu, rfl⟩ := reads_typeAssignment.1 h
    exact .typeAssignment hu
  case valueAssignment =>
    obtain ⟨a, h, rfl⟩ := h
    obtain ⟨name, u, sign, e, type, v, s₁, rfl, hu, he, rfl⟩ := reads_valueAssignment.1 h
    exact .valueAssignment hu he
  case sequenceType | setType | choiceType =>
    obtain ⟨type, h, rfl⟩ := h
    exact yields_of_reads_constructed h
  case sequenceOfType | setOfType =>
    obtain ⟨type, h, rfl⟩ := h
    exact yields_of_reads_collection h
  case taggedType =>
    obtain ⟨type, h, rfl⟩ := h
    obtain ⟨gs, tag, u, inner, htag, hu, hes⟩ := reads_tagged.1 h
    have hgs : YieldsTag gs tag := (reads_typeTag_iff.1 htag).1
    rcases hes with ⟨rfl, rfl⟩ | ⟨keyword, rfl, rfl⟩
    · exact .tagged hgs hu
    · exact .taggedWithKeyword hgs hu
  case simpleType =>
    obtain ⟨type, h, rfl⟩ := h
    rcases reads_simple.1 h with ⟨name, rfl, rfl, rfl⟩ | ⟨name, bs, range, rfl, hbounds, rfl⟩
    · exact .simple
    · exact .constrained (reads_bounds_iff.1 hbounds)
  case referencedType =>
    obtain ⟨name, h, rfl⟩ := h
    obtain ⟨hes, rfl⟩ := reads_qualifiedName_iff.1 h
    exact .typeReference hes
  case valueListType =>
    obtain ⟨type, h, rfl⟩ := h
    rcases reads_valueList.1 h with ⟨name, rfl, rfl, rfl⟩ |
      ⟨name, ts, items, numbered, rfl, hitems, hnumbered, rfl⟩
    · exact .valueListName
    · exact .valueList hitems hnumbered
  case bitStringType =>
    obtain ⟨type, h, rfl⟩ := h
    rcases reads_bitString.1 h with ⟨name, rfl, rfl, rfl⟩ | ⟨name, ts, items, rfl, hitems, rfl⟩
    · exact .bitStringName
    · exact .bitString hitems
  case sizeConstraint =>
    obtain ⟨b, h, rfl⟩ := h
    exact .sizeConstraint (reads_bounds_iff.1 h)
  case componentType =>
    obtain ⟨c, h, rfl⟩ := h
    exact yields_of_reads_component h
  case namedType =>
    obtain ⟨identifier, type, h, rfl⟩ := h
    exact .namedType (reads_namedType_iff.1 h)
  case namedValue =>
    obtain ⟨identifier, number, h, rfl⟩ := h
    rcases reads_namedValue.1 h with ⟨rfl, ⟨rfl, rfl⟩ | ⟨rest, p, text, rfl, rfl⟩⟩
    · exact .namedValue
    · exact .numberedValue
  case extensionMarker =>
    obtain ⟨rfl, rfl⟩ := h
    exact .extensionMarker
  case referencedValue =>
    obtain ⟨name, h, rfl⟩ := h
    obtain ⟨hes, rfl⟩ := reads_qualifiedName_iff.1 h
    exact .valueReference hes
  case objectIdentifierValue =>
    obtain ⟨components, h, rfl⟩ := h
    obtain ⟨cs, rfl, hcs⟩ := reads_objectIdentifier.1 h
    exact .objectIdentifier hcs
  case nameForm =>
    obtain ⟨text, ⟨rfl, rfl⟩, rfl⟩ := h
    exact .nameForm
  case numberForm =>
    obtain ⟨text, ⟨rfl, rfl⟩, rfl⟩ := h
    exact .numberForm
  case binaryStringValue =>
    obtain ⟨text, ⟨rfl, rfl⟩, rfl⟩ := h
    exact .binaryString
  case hexStringValue =>
    obtain ⟨text, ⟨rfl, rfl⟩, rfl⟩ := h
    exact .hexString
  case nameAndNumberForm =>
    obtain ⟨arc, h, rfl⟩ := h
    obtain ⟨name, number, rfl, rfl, rfl⟩ := reads_nameAndNumber.1 h
    exact .nameAndNumber

theorem gives_of_reads {α : Type} {r : Reading α} {f : α → Node} {a : α} {n : Node}
    (hrule : rule t.label = f <$> r) (h : t.Reads r o s a s') (hn : n = f a) :
    t.build.Gives o s n s' := by
  rw [gives_build_iff, hrule, reads_map]
  exact ⟨a, h, hn⟩

theorem gives_of_yields {n : Node} (h : Yields o t s n s') : t.build.Gives o s n s' := by
  cases h with
  | wrapper ht => exact gives_build_iff.2 (reads_wrapper.2 ⟨_, _, rfl, ht⟩)
  | module has =>
    exact gives_of_reads rfl (reads_module.2 ⟨_, _, _, _, _, _, _, _, _, rfl, has⟩) rfl
  | typeAssignment ht =>
    exact gives_of_reads rfl (reads_typeAssignment.2 ⟨_, _, _, _, rfl, ht, rfl⟩) rfl
  | valueAssignment ht he =>
    exact gives_of_reads rfl (reads_valueAssignment.2 ⟨_, _, _, _, _, _, _, rfl, ht, he, rfl⟩) rfl
  | @constructed _ kind keyword ms members _ _ hp hms =>
    subst hp
    cases kind <;>
      exact gives_of_reads rfl (reads_constructed.2 ⟨keyword, ms, members, rfl, hms, rfl⟩) rfl
  | @collection _ kind es element _ _ hp ht =>
    subst hp
    cases kind <;>
      exact gives_of_reads rfl (reads_collection.2 (.inl ⟨es, element, rfl, ht, rfl⟩)) rfl
  | @sizedCollection _ kind bs es size element _ s₁ _ hp hbs ht =>
    have hsize := (reads_bounds_iff (t := .node .sizeConstraint bs)).2 hbs
    subst hp
    cases kind <;>
      exact gives_of_reads rfl
        (reads_collection.2 (.inr ⟨bs, es, size, element, s₁, rfl, hsize, ht, rfl⟩)) rfl
  | @tagged gs tag _ _ _ _ hgs ht =>
    have htag : Reads (.node .tag gs) typeTag o s tag s := reads_typeTag_iff.2 ⟨hgs, rfl⟩
    exact gives_of_reads rfl
      (reads_tagged.2 ⟨gs, tag, _, _, htag, ht, .inl ⟨rfl, rfl⟩⟩) rfl
  | @taggedWithKeyword gs tag keyword _ _ _ _ hgs ht =>
    have htag : Reads (.node .tag gs) typeTag o s tag s := reads_typeTag_iff.2 ⟨hgs, rfl⟩
    exact gives_of_reads rfl
      (reads_tagged.2 ⟨gs, tag, _, _, htag, ht, .inr ⟨keyword, rfl, rfl⟩⟩) rfl
  | simple => exact gives_of_reads rfl (reads_simple.2 (.inl ⟨_, rfl, rfl, rfl⟩)) rfl
  | @constrained name bs range _ _ hbs =>
    have hrange := (reads_bounds_iff (t := .node .constraint bs)).2 hbs
    exact gives_of_reads rfl
      (reads_simple.2 (.inr ⟨name, bs, range, rfl, hrange, rfl⟩)) rfl
  | typeReference hes => exact gives_of_reads rfl (reads_qualifiedName_iff.2 ⟨hes, rfl⟩) rfl
  | valueListName => exact gives_of_reads rfl (reads_valueList.2 (.inl ⟨_, rfl, rfl, rfl⟩)) rfl
  | valueList hts hnumbered =>
    exact gives_of_reads rfl
      (reads_valueList.2 (.inr ⟨_, _, _, _, rfl, hts, hnumbered, rfl⟩)) rfl
  | bitStringName => exact gives_of_reads rfl (reads_bitString.2 (.inl ⟨_, rfl, rfl, rfl⟩)) rfl
  | bitString hts =>
    exact gives_of_reads rfl (reads_bitString.2 (.inr ⟨_, _, _, rfl, hts, rfl⟩)) rfl
  | sizeConstraint hbs => exact gives_of_reads rfl (reads_bounds_iff.2 hbs) rfl
  | required hms =>
    exact gives_of_reads rfl (reads_component.2 ⟨_, _, rfl, .inl ⟨rfl,
      reads_requiredComponent.2 ⟨_, _, reads_namedType_iff.2 hms, rfl⟩⟩⟩) rfl
  | optional hms =>
    exact gives_of_reads rfl (reads_component.2 ⟨_, _, rfl, .inr (.inl ⟨rfl,
      reads_optionalComponent.2 ⟨_, _, _, rfl, reads_namedType_iff.2 hms, rfl⟩⟩)⟩) rfl
  | default hms he =>
    exact gives_of_reads rfl (reads_component.2 ⟨_, _, rfl, .inr (.inr (.inl ⟨rfl,
      reads_defaultComponent.2 ⟨_, _, _, _, _, _, rfl, reads_namedType_iff.2 hms, he, rfl⟩⟩))⟩) rfl
  | componentsOf ht =>
    exact gives_of_reads rfl (reads_component.2 ⟨_, _, rfl, .inr (.inr (.inr ⟨rfl,
      reads_includedComponents.2 ⟨_, _, rfl, ht, rfl⟩⟩))⟩) rfl
  | @namedType ms identifier type _ _ hms =>
    exact gives_of_reads (a := (identifier, type)) rfl (reads_namedType_iff.2 hms) rfl
  | @namedValue identifier =>
    exact gives_of_reads (a := (identifier, none)) rfl
      (reads_namedValue.2 ⟨rfl, .inl ⟨rfl, rfl⟩⟩) rfl
  | @numberedValue identifier number p es =>
    exact gives_of_reads (a := (identifier, some number)) rfl
      (reads_namedValue.2 ⟨rfl, .inr ⟨es, p, number, rfl, rfl⟩⟩) rfl
  | extensionMarker => exact gives_build_iff.2 (reads_pure.2 ⟨rfl, rfl⟩)
  | valueReference hes => exact gives_of_reads rfl (reads_qualifiedName_iff.2 ⟨hes, rfl⟩) rfl
  | objectIdentifier hcs => exact gives_of_reads rfl (reads_objectIdentifier.2 ⟨_, rfl, hcs⟩) rfl
  | binaryString | hexString | nameForm | numberForm =>
    exact gives_of_reads rfl (reads_onlyToken.2 ⟨rfl, rfl⟩) rfl
  | nameAndNumber => exact gives_of_reads rfl (reads_nameAndNumber.2 ⟨_, _, rfl, rfl, rfl⟩) rfl

theorem label_ne_of_gives {p : Production} (hp : rule p = throw (.unknownKind p.name))
    (h : t.build.Gives o s n s') : t.label ≠ p := by
  rintro rfl
  rw [gives_build_iff, hp] at h
  simp at h

theorem gives_of_gives_wrapper {u : ParseTree} {es : List (Element ParseTree)} {n : Node}
    (h : (build (.node .type (.tree u :: es))).Gives o s n s') : u.build.Gives o s n s' := by
  obtain ⟨w, rest, hes, hw⟩ := reads_wrapper.1 (gives_build_iff.1 h)
  obtain ⟨⟨⟩, -⟩ := List.cons.inj hes
  exact hw

theorem gives_unwrapped {n : Node} (h : t.build.Gives o s n s') :
    t.unwrapped.build.Gives o s n s' := by
  fun_induction unwrapped t with
  | case1 u es ih => exact ih (gives_of_gives_wrapper h)
  | case2 t => exact h

/-- The production of what is built is the innermost one of the tree. -/
theorem production_eq {n : Node} (h : t.build.Gives o s n s') :
    n.production = t.unwrapped.label := by
  fun_induction unwrapped t with
  | case1 u es ih => exact ih (gives_of_gives_wrapper h)
  | case2 t hwrapper =>
    cases yields_of_gives h with
    | wrapper ht => exact (hwrapper _ _ rfl).elim
    | @constructed _ kind _ _ _ _ _ hp => cases kind <;> exact hp.symm
    | @collection _ kind _ _ _ _ hp => cases kind <;> exact hp.symm
    | @sizedCollection _ kind _ _ _ _ _ _ _ hp => cases kind <;> exact hp.symm
    | _ => rfl

end ParseTree

end AsnModel
