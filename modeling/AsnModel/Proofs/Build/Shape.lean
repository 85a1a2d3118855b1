import AsnModel.Proofs.Build.Success

/-!
# The shape of trees that build

For each kind of node, the elements that a tree has exactly when it is read as such a node, and the
part of the model that is read from it. Productions that are read alike share a statement.
-/

namespace AsnModel

variable {α : Type} {o : BuildOptions} {s s' : Nat} {t : ParseTree}

/-! ## Places -/

namespace Slot

variable {n : Node}

@[simp] theorem accept_typeDecl_iff {type : TypeDecl} :
    Slot.typeDecl.accept n = some type ↔ n = .type type := by
  cases n <;> simp [typeDecl]

@[simp] theorem accept_assignment_iff {a : Assignment} :
    assignment.accept n = some a ↔ n = .assignment a := by
  cases n <;> simp [assignment]

@[simp] theorem accept_value_iff {v : Value} : value.accept n = some v ↔ v.node? = some n := by
  cases n <;> cases v <;> simp [value, Value.node?, eq_comm]

@[simp] theorem accept_member_iff {m : Member TypeDecl} :
    member.accept n = some m ↔ n = m.node := by
  cases n <;> cases m <;> simp [member, Member.node]

@[simp] theorem accept_listItem_iff {item : ListItem (Option String)} :
    listItem.accept n = some item ↔ n = item.node := by
  cases n <;> cases item <;> simp [listItem, ListItem.node]

@[simp] theorem accept_arc_iff {a : ArcForm} : arc.accept n = some a ↔ n = .arc a := by
  cases n <;> simp [arc]

end Slot

namespace ParseTree

open Reading

/-- A tree is built by reading it as its production says. -/
theorem gives_build_iff {n : Node} :
    t.build.Gives o s n s' ↔ t.Reads (rule t.label) o s n s' := by
  obtain ⟨p, es⟩ := t
  rw [Reads, build_node, construct]
  simp [Draft.read]

@[simp] theorem gives_read_draft {r : Reading α} {a : α} :
    (t.draft.read r).Gives o s a s' ↔ t.Reads r o s a s' := .rfl

@[simp] theorem reads_map {β : Type} {f : α → β} {r : Reading α} {b : β} :
    t.Reads (f <$> r) o s b s' ↔ ∃ a, t.Reads r o s a s' ∧ b = f a := by
  simp only [reads_iff, gives_map]
  grind

@[simp] theorem production?_map_draft (e : Element ParseTree) :
    (e.map draft).production? = e.tree?.map Tree.label := by
  simp [Element.production?, Function.comp_def]

@[simp] theorem reads_pure {a b : α} : t.Reads (pure a) o s b s' ↔ b = a ∧ s' = s := by
  simp [reads_iff]

@[simp] theorem not_reads_throw {e : BuildError} {a : α} : ¬t.Reads (throw e) o s a s' := by
  simp [reads_iff]

@[simp] theorem buildsAs_typeDecl {type : TypeDecl} :
    t.BuildsAs .typeDecl o s type s' ↔ t.build.Gives o s (.type type) s' := by
  simp [BuildsAs]

/-- A wrapper is read as its first element is. -/
theorem reads_wrapper {n : Node} :
    t.Reads (do (← node []).build) o s n s' ↔
      ∃ (u : ParseTree) (rest : _), t.elements = .tree u :: rest ∧ u.build.Gives o s n s' := by
  rw [reads_iff]
  simp [build]

/-! ## Tokens and values -/

@[simp] theorem reads_token {text : String} :
    t.Reads token o s text s' ↔ ∃ rest, t.elements = .token text :: rest ∧ s' = s := by
  simp [reads_iff]

@[simp] theorem gives_onlyToken {p : Production} {i : Nat} {es : List (Element ParseTree)}
    {text : String} {c' : Cursor} :
    Reading.Gives onlyToken o (.onto p i es) s text c' s' ↔
      es = [.token text] ∧ c' = .onto p (i + 1) [] ∧ s' = s := by
  simp [onlyToken]

@[simp] theorem reads_onlyToken {text : String} :
    t.Reads onlyToken o s text s' ↔ t.elements = [.token text] ∧ s' = s := by
  simp [reads_iff]

theorem reads_qualifiedName {name : QualifiedName} :
    t.Reads qualifiedName o s name s' ↔ s' = s ∧
      (t.elements = [.token name.name] ∧ name.qualifier = none ∨
        ∃ q rest, t.elements = [.tree (.node .moduleReference (.token q :: rest)),
          .token name.name] ∧ name.qualifier = some q) := by
  obtain ⟨l, es⟩ := t
  rcases name with ⟨qualifier?, name⟩
  rw [reads_iff]
  rcases es with _ | ⟨⟨p, sub⟩ | text | ts, es⟩ <;>
    simp [qualifiedName, qualifier, gives_ifNext, or_and_right, exists_or]
  · grind
  · grind

theorem reads_objectIdentifier {components : List ArcForm} :
    t.Reads objectIdentifier o s components s' ↔
      ∃ cs, t.elements = cs.map .tree ∧ Threads (BuildsAs .arc o) cs s components s' := by
  simp [reads_iff, objectIdentifier]

theorem reads_nameAndNumber {arc : ArcForm} :
    t.Reads nameAndNumber o s arc s' ↔
      ∃ name number, t.elements = [.tree (.node .nameForm [.token name]),
        .tree (.node .numberForm [.token number])] ∧ arc = .nameAndNumber name number ∧
        s' = s := by
  rw [reads_iff]
  simp [nameAndNumber]
  grind

theorem reads_namedValue {identifier : String} {number : Option String} :
    t.Reads namedValue o s (identifier, number) s' ↔ s' = s ∧
      (t.elements = [.token identifier] ∧ number = none ∨
        ∃ rest p text, t.elements = [.tree (.node .identifier (.token identifier :: rest)),
          .tree (.node p [.token text])] ∧ number = some text) := by
  obtain ⟨l, es⟩ := t
  rw [reads_iff]
  rcases es with _ | ⟨⟨p, sub⟩ | text | ts, es⟩ <;>
    simp [namedValue, gives_ifNext]
  · constructor
    · rintro ⟨rfl, ⟨⟨rest, rfl⟩, rfl⟩, ⟨q, us⟩, rfl, text, hus, rfl⟩
      obtain rfl : us = [.token text] := hus
      exact ⟨rfl, rest, q, text, ⟨⟨rfl, rfl⟩, rfl⟩, rfl⟩
    · rintro ⟨rfl, rest, q, text, ⟨⟨rfl, rfl⟩, rfl⟩, rfl⟩
      exact ⟨rfl, ⟨⟨rest, rfl⟩, rfl⟩, Tree.node q [.token text], rfl, text, rfl, rfl⟩
  · grind

/-! ## Types -/

theorem reads_bounds {b : Bounds} :
    t.Reads bounds o s b s' ↔ ∃ lo hi s₁, t.elements = [lo, hi] ∧ lo.BuildsValue o s b.min s₁ ∧
      hi.BuildsValue o s₁ b.max s' := by
  rw [reads_iff]
  simp [bounds]
  grind

theorem reads_constructed {kind : ConstructedKind} {type : TypeDecl} :
    t.Reads (constructed kind) o s type s' ↔ ∃ keyword ts members,
      t.elements = [.token keyword, .list ts] ∧
        Threads (BuildsAs .member o) ts s members s' ∧
        type = .constructed kind keyword members := by
  rw [reads_iff]
  simp [constructed]

theorem reads_collection {kind : CollectionKind} {type : TypeDecl} :
    t.Reads (collection kind) o s type s' ↔
      (∃ us element, t.elements = [.tree (.node .type us)] ∧
        (build (.node .type us)).Gives o s (.type element) s' ∧
        type = .collection kind none element) ∨
      ∃ cs us size element s₁,
        t.elements = [.tree (.node .sizeConstraint cs), .tree (.node .type us)] ∧
        Reads (.node .sizeConstraint cs) bounds o s size s₁ ∧
        (build (.node .type us)).Gives o s₁ (.type element) s' ∧
        type = .collection kind (some size) element := by
  rw [reads_iff]
  simp [collection, or_and_right, and_or_left, exists_or]
  grind

/-- An element of a tag: a node of the given production that begins with the given token. -/
def TagPart (e : Element ParseTree) (part : Production × String) : Prop :=
  ∃ rest, e = .tree (.node part.1 (.token part.2 :: rest)) ∧
    (part.1 = .tagClassNumber ∨ part.1 = .tagClass)

theorem gives_tagParts {p : Production} {i : Nat} {es : List (Element ParseTree)}
    {parts : List (Production × String)} {c' : Cursor} :
    Reading.Gives (forEachLeft do
        let part ← node [.tagClassNumber, .tagClass]
        return (part.production, ← part.read token)) o (.onto p i es) s parts c' s' ↔
      List.Forall₂ TagPart es parts ∧ s' = s ∧ c' = .onto p (i + es.length) [] := by
  rw [gives_forEachLeft (P := fun e s part s' => TagPart e part ∧ s' = s), Threads.iff_forall₂,
    and_assoc]
  intro i es s part c' s'
  simp [TagPart]
  grind

/-- The text of the last part of the given production. -/
def lastPart? (p : Production) (parts : List (Production × String)) : Option String :=
  (parts.reverse.find? fun part => part.1 = p).map (·.2)

theorem reads_typeTag {tag : TypeTag} :
    t.Reads typeTag o s tag s' ↔ s' = s ∧ ∃ parts, List.Forall₂ TagPart t.elements parts ∧
      lastPart? .tagClassNumber parts = some tag.number ∧
      lastPart? .tagClass parts = tag.className := by
  rw [reads_iff]
  simp only [typeTag, gives_bind, gives_tagParts]
  constructor
  · rintro ⟨c', parts, c₁, s₁, ⟨hparts, rfl, rfl⟩, h⟩
    split at h <;> simp at h
    obtain ⟨rfl, -, rfl⟩ := h
    exact ⟨rfl, parts, hparts, ‹_›, rfl⟩
  · rintro ⟨rfl, parts, hparts, hnumber, hclass⟩
    simp only [lastPart?] at hnumber hclass
    exact ⟨_, parts, _, s', ⟨hparts, rfl, rfl⟩, by simp [hnumber, hclass]; rfl⟩

theorem reads_tagged {type : TypeDecl} :
    t.Reads tagged o s type s' ↔ ∃ gs tag, ∃ u : ParseTree, ∃ inner,
      Reads (.node .tag gs) typeTag o s tag s ∧ u.build.Gives o s (.type inner) s' ∧
      (t.elements = [.tree (.node .tag gs), .tree u] ∧ type = .tagged tag false inner ∨
        ∃ keyword, t.elements = [.tree (.node .tag gs), .token keyword, .tree u] ∧
          type = .tagged tag (keyword = "IMPLICIT") inner) := by
  have hdraw : ∀ gs tag s₁, Reads (.node .tag gs) typeTag o s tag s₁ → s₁ = s :=
    fun _ _ _ h => (reads_typeTag.1 h).1
  rw [reads_iff]
  simp [tagged, gives_ifNext, or_and_right, and_or_left, exists_or]
  grind

theorem reads_simple {type : TypeDecl} :
    t.Reads simple o s type s' ↔
      (∃ name, t.elements = [.token name] ∧ type = .simple name none ∧ s' = s) ∨
      ∃ name cs range, t.elements = [.token name, .tree (.node .constraint cs)] ∧
        Reads (.node .constraint cs) bounds o s range s' ∧ type = .simple name (some range) := by
  rw [reads_iff]
  simp [simple, gives_ifNext, or_and_right, and_or_left, exists_or]
  grind

theorem gives_listItems {p : Production} {i : Nat} {es : List (Element ParseTree)}
    {items : Option (List (ListItem (Option String)))} {c' : Cursor} :
    Reading.Gives listItems o (.onto p i es) s items c' s' ↔
      (es = [] ∧ items = none ∧ c' = .onto p i [] ∧ s' = s) ∨
      ∃ ts rest is, es = .list ts :: rest ∧
        Threads (BuildsAs .listItem o) ts s is s' ∧
        items = some is ∧ c' = .onto p (i + 1) rest := by
  simp only [listItems, gives_ifNext]
  cases es <;> simp
  grind

theorem reads_valueList {type : TypeDecl} :
    t.Reads valueList o s type s' ↔
      (∃ name, t.elements = [.token name] ∧ type = .valueList name none ∧ s' = s) ∨
      ∃ name ts items numbered, t.elements = [.token name, .list ts] ∧
        Threads (BuildsAs .listItem o) ts s items s' ∧
        numberItems items = .ok numbered ∧ type = .valueList name (some numbered) := by
  rw [reads_iff]
  simp [valueList, gives_listItems, or_and_right, and_or_left, exists_or]
  constructor
  · rintro (⟨name, hes, rfl, rfl⟩ | ⟨l, name, s₁, ts, hes, items, hitems, h⟩)
    · exact .inl ⟨name, hes, rfl, rfl⟩
    · split at h <;> simp at h
      grind
  · rintro (⟨name, hes, rfl, rfl⟩ | ⟨name, ts, hes, items, hitems, numbered, hnumbered, rfl⟩)
    · exact .inl ⟨name, hes, rfl, rfl⟩
    · exact .inr ⟨_, name, s', ts, hes, items, hitems, by simp [hnumbered]; rfl⟩

theorem reads_bitString {type : TypeDecl} :
    t.Reads bitString o s type s' ↔
      (∃ name, t.elements = [.token name] ∧ type = .bitString name none ∧ s' = s) ∨
      ∃ name ts items, t.elements = [.token name, .list ts] ∧
        Threads (BuildsAs .listItem o) ts s items s' ∧
        type = .bitString name (some items) := by
  rw [reads_iff]
  simp [bitString, gives_listItems, or_and_right, and_or_left, exists_or]
  grind

/-! ## Members -/

theorem reads_namedType {identifier : String} {type : TypeDecl} :
    t.Reads namedType o s (identifier, type) s' ↔
      (∃ us, t.elements = [.tree (.node .type us)] ∧ o.nameAnonymous = true ∧
        identifier = BuildM.placeholderName o.stem (s + 1) ∧
        (build (.node .type us)).Gives o (s + 1) (.type type) s') ∨
      ∃ rest, ∃ u : ParseTree,
        t.elements = [.tree (.node .identifier (.token identifier :: rest)), .tree u] ∧
        u.build.Gives o s (.type type) s' := by
  rw [reads_iff]
  cases h : o.nameAnonymous
  · simp [namedType, h, or_and_right, and_or_left, exists_or]
    grind
  · simp [namedType, h, or_and_right, and_or_left, exists_or]
    grind

theorem reads_requiredComponent {c : Component TypeDecl} :
    t.Reads requiredComponent o s c s' ↔ ∃ identifier type,
      t.Reads namedType o s (identifier, type) s' ∧ c = .named identifier type .required := by
  simp [requiredComponent]

theorem reads_optionalComponent {c : Component TypeDecl} :
    t.Reads optionalComponent o s c s' ↔ ∃ ms identifier type,
      t.elements = [.tree (.node .namedType ms)] ∧
        Reads (.node .namedType ms) namedType o s (identifier, type) s' ∧
        c = .named identifier type .optional := by
  rw [reads_iff]
  simp [optionalComponent]

theorem reads_defaultComponent {c : Component TypeDecl} :
    t.Reads defaultComponent o s c s' ↔ ∃ ms e identifier type v s₁,
      t.elements = [.tree (.node .namedType ms), e] ∧
        Reads (.node .namedType ms) namedType o s (identifier, type) s₁ ∧
        e.BuildsValue o s₁ v s' ∧ c = .named identifier type (.default v) := by
  rw [reads_iff]
  simp [defaultComponent]
  grind

theorem reads_includedComponents {c : Component TypeDecl} :
    t.Reads includedComponents o s c s' ↔ ∃ (u : ParseTree) (type : TypeDecl),
      t.elements = [.tree u] ∧ u.build.Gives o s (.type type) s' ∧ c = .componentsOf type := by
  rw [reads_iff]
  simp [includedComponents]
  grind

theorem reads_component {c : Component TypeDecl} :
    t.Reads component o s c s' ↔ ∃ l fs, t.elements = [.tree (.node l fs)] ∧
      (l = .namedType ∧ Reads (.node l fs) requiredComponent o s c s' ∨
        l = .componentTypeOptional ∧ Reads (.node l fs) optionalComponent o s c s' ∨
        l = .componentTypeDefault ∧ Reads (.node l fs) defaultComponent o s c s' ∨
        l = .componentTypeComponentsOf ∧ Reads (.node l fs) includedComponents o s c s') := by
  rw [reads_iff]
  simp [component, or_and_right, and_or_left, exists_or]

/-! ## Modules -/

theorem reads_typeAssignment {a : Assignment} :
    t.Reads typeAssignment o s a s' ↔ ∃ name sign, ∃ u : ParseTree, ∃ type,
      t.elements = [.token name, .token sign, .tree u] ∧ u.build.Gives o s (.type type) s' ∧
        a = .type name type := by
  rw [reads_iff]
  simp [typeAssignment]
  grind

theorem reads_valueAssignment {a : Assignment} :
    t.Reads valueAssignment o s a s' ↔ ∃ name, ∃ u : ParseTree, ∃ sign e type v s₁,
      t.elements = [.token name, .tree u, .token sign, e] ∧
        u.build.Gives o s (.type type) s₁ ∧ e.BuildsValue o s₁ v s' ∧
        a = .value name type v := by
  rw [reads_iff]
  simp [valueAssignment]
  grind

theorem reads_moduleBody {d : Draft} :
    t.Reads moduleBody o s d s' ↔ ∃ exports imports es,
      t.elements = [exports, imports, .tree (.node .assignmentList es)] ∧
        d = draft (.node .assignmentList es) ∧ s' = s := by
  rw [reads_iff]
  simp [moduleBody, skip]

theorem reads_assignments {as : List Assignment} :
    t.Reads (forEachLeft (next .assignment)) o s as s' ↔
      ∃ ts, t.elements = ts.map .tree ∧ Threads (BuildsAs .assignment o) ts s as s' := by
  simp [reads_iff]

theorem reads_module {m : Module} :
    t.Reads module o s m s' ↔ ∃ rest e₁ e₂ e₃ e₄ e₅ exports imports as,
      t.elements = [.tree (.node .moduleReference (.token m.name :: rest)), e₁, e₂, e₃, e₄,
        .tree (.node .moduleBody [exports, imports,
          .tree (.node .assignmentList (as.map .tree))]), e₅] ∧
        Threads (BuildsAs .assignment o) as s m.assignments s' := by
  rw [reads_iff]
  simp [module, skip, reads_moduleBody, reads_assignments]
  grind

end ParseTree

end AsnModel
