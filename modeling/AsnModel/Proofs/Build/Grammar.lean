import AsnModel.Proofs.Build.Numbering
import AsnModel.Proofs.Build.Yields

/-!
# The grammar of parse trees

The parse trees that can be built form an inductively defined language. Which trees belong to it
does not depend on the names that have been generated before.

## Main definitions

* `ParseTree.WellFormed` — the language.
* `ParseTree.IsA` — its trees of some kind.
* `ParseTree.IsValue`, `ParseTree.IsBounds`, `ParseTree.IsNamedType`, `ParseTree.IsTag` — the other
  parts of its trees.
-/

namespace AsnModel

namespace Production

/-- The productions of types. -/
def types : List Production :=
  [.sequenceType, .setType, .choiceType, .sequenceOfType, .setOfType, .taggedType, .simpleType,
   .referencedType, .valueListType, .bitStringType]

/-- The productions of assignments. -/
def assignments : List Production := [.typeAssignment, .valueAssignment]

/-- The productions of what stands between the braces of a SEQUENCE, SET or CHOICE. -/
def members : List Production := [.componentType, .namedType, .extensionMarker]

/-- The productions of the items of a list of named values. -/
def listItems : List Production := [.namedValue, .extensionMarker]

/-- The productions of object identifier components. -/
def arcs : List Production := [.nameForm, .numberForm, .nameAndNumberForm]

/-- The productions of values. -/
def values : List Production :=
  [.referencedValue, .objectIdentifierValue, .binaryStringValue, .hexStringValue]

end Production

namespace ParseTree

open Production

/-- The number that is written with a named value, or `none` without a number. Other trees are
not named values. -/
def number? (t : ParseTree) : Option (Option String) :=
  match t.unwrapped with
  | .node .namedValue [.token _] => some none
  | .node .namedValue [_, .tree (.node _ [.token number])] => some (some number)
  | _ => none

/-! ## The language -/

/-- A tag: numbers and classes, with at least one number. -/
def IsTag (es : List (Element ParseTree)) : Prop :=
  (∀ e ∈ es, ∃ p ∈ [tagClass, tagClassNumber], ∃ text rest,
    e = .tree (.node p (.token text :: rest))) ∧
  ∃ rest, .tree (.node .tagClassNumber rest) ∈ es

mutual

/-- A tree of the language that is, inside its wrappers, of one of the given productions. -/
inductive IsA : List Production → ParseTree → Prop where
  | mk {ps : List Production} {t : ParseTree} (ht : WellFormed t) (hp : t.unwrapped.label ∈ ps) :
    IsA ps t

/-- A value: a raw token, or a tree. -/
inductive IsValue : Element ParseTree → Prop where
  | token {text : String} : IsValue (.token text)
  | tree {t : ParseTree} (ht : IsA values t) : IsValue (.tree t)

/-- The two bounds of a range or of a size. -/
inductive IsBounds : List (Element ParseTree) → Prop where
  | mk {lo hi : Element ParseTree} (hlo : IsValue lo) (hhi : IsValue hi) : IsBounds [lo, hi]

/-- A type, possibly behind an identifier. -/
inductive IsNamedType : List (Element ParseTree) → Prop where
  | anonymous {es : List (Element ParseTree)} (ht : IsA types (.node .type es)) :
    IsNamedType [.tree (.node .type es)]
  | named {name : String} {es : List (Element ParseTree)} {t : ParseTree} (ht : IsA types t) :
    IsNamedType [.tree (.node .identifier (.token name :: es)), .tree t]

/-- The parse trees of which a model can be built. -/
inductive WellFormed : ParseTree → Prop where
  /-- Only the first element of a wrapper matters. -/
  | wrapper {t : ParseTree} {es : List (Element ParseTree)} (ht : WellFormed t) :
    WellFormed (.node .type (.tree t :: es))
  /-- Name, DEFINITIONS, two defaults, `::=`, body and END. -/
  | module {name : String} {es : List (Element ParseTree)}
      {e₁ e₂ e₃ e₄ e₅ exports imports : Element ParseTree} {as : List ParseTree}
      (has : ∀ a ∈ as, IsA assignments a) :
    WellFormed (.node .moduleDefinition
      [.tree (.node .moduleReference (.token name :: es)), e₁, e₂, e₃, e₄,
       .tree (.node .moduleBody [exports, imports, .tree (.node .assignmentList (as.map .tree))]),
       e₅])
  | typeAssignment {name sign : String} {t : ParseTree} (ht : IsA types t) :
    WellFormed (.node .typeAssignment [.token name, .token sign, .tree t])
  | valueAssignment {name sign : String} {t : ParseTree} {e : Element ParseTree}
      (ht : IsA types t) (he : IsValue e) :
    WellFormed (.node .valueAssignment [.token name, .tree t, .token sign, e])
  | constructed {p : Production} {keyword : String} {ms : List ParseTree}
      (hp : p ∈ [sequenceType, setType, choiceType]) (hms : ∀ m ∈ ms, IsA members m) :
    WellFormed (.node p [.token keyword, .list ms])
  | collection {p : Production} {es : List (Element ParseTree)}
      (hp : p ∈ [sequenceOfType, setOfType]) (ht : IsA types (.node .type es)) :
    WellFormed (.node p [.tree (.node .type es)])
  | sizedCollection {p : Production} {bs es : List (Element ParseTree)}
      (hp : p ∈ [sequenceOfType, setOfType]) (hbs : IsBounds bs)
      (ht : IsA types (.node .type es)) :
    WellFormed (.node p [.tree (.node .sizeConstraint bs), .tree (.node .type es)])
  | tagged {gs : List (Element ParseTree)} {t : ParseTree} (hgs : IsTag gs)
      (ht : IsA types t) :
    WellFormed (.node .taggedType [.tree (.node .tag gs), .tree t])
  | taggedWithKeyword {gs : List (Element ParseTree)} {keyword : String} {t : ParseTree}
      (hgs : IsTag gs) (ht : IsA types t) :
    WellFormed (.node .taggedType [.tree (.node .tag gs), .token keyword, .tree t])
  | simple {name : String} : WellFormed (.node .simpleType [.token name])
  | constrained {name : String} {bs : List (Element ParseTree)} (hbs : IsBounds bs) :
    WellFormed (.node .simpleType [.token name, .tree (.node .constraint bs)])
  | reference {p : Production} {name : String} (hp : p ∈ [referencedType, referencedValue]) :
    WellFormed (.node p [.token name])
  | qualifiedReference {p : Production} {qualifier name : String} {es : List (Element ParseTree)}
      (hp : p ∈ [referencedType, referencedValue]) :
    WellFormed (.node p [.tree (.node .moduleReference (.token qualifier :: es)), .token name])
  | unlisted {p : Production} {name : String} (hp : p ∈ [valueListType, bitStringType]) :
    WellFormed (.node p [.token name])
  /-- The missing numbers of a list of named values can be counted. -/
  | valueList {name : String} {is : List ParseTree}
      (his : ∀ i ∈ is, IsA listItems i) (hnumbers : Numberable (is.filterMap number?)) :
    WellFormed (.node .valueListType [.token name, .list is])
  | bitString {name : String} {is : List ParseTree} (his : ∀ i ∈ is, IsA listItems i) :
    WellFormed (.node .bitStringType [.token name, .list is])
  | sizeConstraint {bs : List (Element ParseTree)} (hbs : IsBounds bs) :
    WellFormed (.node .sizeConstraint bs)
  | required {ms : List (Element ParseTree)} (hms : IsNamedType ms) :
    WellFormed (.node .componentType [.tree (.node .namedType ms)])
  | optional {ms : List (Element ParseTree)} (hms : IsNamedType ms) :
    WellFormed (.node .componentType
      [.tree (.node .componentTypeOptional [.tree (.node .namedType ms)])])
  | default {ms : List (Element ParseTree)} {e : Element ParseTree}
      (hms : IsNamedType ms) (he : IsValue e) :
    WellFormed (.node .componentType
      [.tree (.node .componentTypeDefault [.tree (.node .namedType ms), e])])
  | componentsOf {t : ParseTree} (ht : IsA types t) :
    WellFormed (.node .componentType [.tree (.node .componentTypeComponentsOf [.tree t])])
  | namedType {ms : List (Element ParseTree)} (hms : IsNamedType ms) :
    WellFormed (.node .namedType ms)
  | namedValue {name : String} : WellFormed (.node .namedValue [.token name])
  | numberedValue {name number : String} {p : Production} {es : List (Element ParseTree)} :
    WellFormed (.node .namedValue [.tree (.node .identifier (.token name :: es)),
      .tree (.node p [.token number])])
  | extensionMarker {es : List (Element ParseTree)} : WellFormed (.node .extensionMarker es)
  | objectIdentifier {cs : List ParseTree} (hcs : ∀ c ∈ cs, IsA arcs c) :
    WellFormed (.node .objectIdentifierValue (cs.map .tree))
  | text {p : Production} {text : String}
      (hp : p ∈ [nameForm, numberForm, binaryStringValue, hexStringValue]) :
    WellFormed (.node p [.token text])
  | nameAndNumber {name number : String} :
    WellFormed (.node .nameAndNumberForm [.tree (.node .nameForm [.token name]),
      .tree (.node .numberForm [.token number])])

end

end ParseTree

/-- A place accepts exactly the nodes of the given productions. -/
def Slot.Takes {α : Type} (slot : Slot α) (ps : List Production) : Prop :=
  ∀ n : Node, (∃ a, slot.accept n = some a) ↔ n.production ∈ ps

namespace Slot

open Production

theorem takes_typeDecl : typeDecl.Takes types := by
  intro n
  fun_cases Node.production n <;> simp [typeDecl, types]

theorem takes_assignment : assignment.Takes assignments := by
  intro n
  fun_cases Node.production n <;> simp [assignment, assignments]

theorem takes_value : value.Takes values := by
  intro n
  fun_cases Node.production n <;> simp [value, values]

theorem takes_member : member.Takes members := by
  intro n
  fun_cases Node.production n <;> simp [member, members]

theorem takes_listItem : listItem.Takes listItems := by
  intro n
  fun_cases Node.production n <;> simp [listItem, listItems]

theorem takes_arc : arc.Takes arcs := by
  intro n
  fun_cases Node.production n <;> simp [arc, arcs]

end Slot

namespace ParseTree

open Production Reading

variable {α : Type} {o : BuildOptions} {s s' : Nat} {t : ParseTree} {ts : List ParseTree}
  {es : List (Element ParseTree)} {ps : List Production} {slot : Slot α} {a : α} {as : List α}

/-! ## Tags and numbers -/

theorem exists_mem_of_forall₂ {β : Type} {R : α → β → Prop} {bs : List β}
    (h : List.Forall₂ R as bs) (ha : a ∈ as) : ∃ b ∈ bs, R a b := by
  induction h with
  | nil => simp at ha
  | cons head _ ih =>
    rcases List.mem_cons.1 ha with rfl | ha
    · exact ⟨_, by simp, head⟩
    · obtain ⟨b, hb, hR⟩ := ih ha
      exact ⟨b, by simp [hb], hR⟩

theorem exists_forall₂ {β : Type} {R : α → β → Prop} (h : ∀ a ∈ as, ∃ b, R a b) :
    ∃ bs, List.Forall₂ R as bs := by
  induction as with
  | nil => exact ⟨[], .nil⟩
  | cons a as ih =>
    rw [List.forall_mem_cons] at h
    obtain ⟨⟨b, hb⟩, h⟩ := h
    obtain ⟨bs, hbs⟩ := ih h
    exact ⟨b :: bs, .cons hb hbs⟩

theorem exists_lastPart?_iff {p : Production} {parts : List (Production × String)} :
    (∃ text, lastPart? p parts = some text) ↔ ∃ text, (p, text) ∈ parts := by
  rw [← Option.isSome_iff_exists, lastPart?, Option.isSome_map, List.find?_isSome]
  simp

theorem isTag_iff : IsTag es ↔ ∃ tag, YieldsTag es tag := by
  constructor
  · rintro ⟨hparts, rest, hnumber⟩
    obtain ⟨parts, hforall⟩ : ∃ parts, List.Forall₂ TagPart es parts := by
      refine exists_forall₂ fun e he => ?_
      obtain ⟨p, hp, text, rest, rfl⟩ := hparts e he
      exact ⟨(p, text), rest, rfl, by simpa [or_comm] using hp⟩
    obtain ⟨⟨p, text⟩, hmem, rest', he, -⟩ := exists_mem_of_forall₂ hforall hnumber
    obtain ⟨rfl, -⟩ : tagClassNumber = p ∧ _ := by simpa using he
    obtain ⟨number, hlast⟩ := exists_lastPart?_iff.2 ⟨text, hmem⟩
    exact ⟨⟨lastPart? .tagClass parts, number⟩, parts, hforall, hlast, rfl⟩
  · rintro ⟨tag, parts, hparts, hnumber, -⟩
    refine ⟨fun e he => ?_, ?_⟩
    · obtain ⟨⟨p, text⟩, -, rest, rfl, hp⟩ := exists_mem_of_forall₂ hparts he
      exact ⟨p, by simpa [or_comm] using hp, text, rest, rfl⟩
    · obtain ⟨text, hmem⟩ := exists_lastPart?_iff.1 ⟨_, hnumber⟩
      obtain ⟨e, he, rest, rfl, -⟩ := exists_mem_of_forall₂ hparts.flip hmem
      exact ⟨.token text :: rest, he⟩

theorem number?_of_buildsAs {item : ListItem (Option String)}
    (h : t.BuildsAs .listItem o s item s') : t.number? = item.named?.map Prod.snd := by
  obtain ⟨n, hn, hitem⟩ := h
  rw [Slot.accept_listItem_iff] at hitem
  subst hitem
  unfold number?
  have hu := gives_unwrapped hn
  have hlabel := production_eq hn
  generalize t.unwrapped = u at hu hlabel
  obtain ⟨l, es⟩ := u
  cases item with
  | named identifier value =>
    obtain rfl : .namedValue = l := hlabel
    cases yields_of_gives hu <;> rfl
  | extension =>
    obtain rfl : .extensionMarker = l := hlabel
    rfl

theorem filterMap_number? {items : List (ListItem (Option String))}
    (h : Threads (BuildsAs .listItem o) ts s items s') :
    ts.filterMap number? = writtenNumbers items := by
  unfold writtenNumbers
  induction h with
  | nil => rfl
  | cons head _ ih => simp [List.filterMap_cons, number?_of_buildsAs head, ih]

/-! ## What can be built is well formed -/

/-- If the tree can be built, it is well formed. -/
def Sound (t : ParseTree) : Prop := ∀ ⦃o s n s'⦄, t.build.Gives o s n s' → WellFormed t

theorem Sound.isA (ht : t.Sound) (hslot : slot.Takes ps) (h : t.BuildsAs slot o s a s') :
    IsA ps t := by
  obtain ⟨n, hn, ha⟩ := h
  exact .mk (ht hn) (production_eq hn ▸ (hslot n).1 ⟨a, ha⟩)

theorem Sound.isType {type : TypeDecl} (ht : t.Sound) (h : t.build.Gives o s (.type type) s') :
    IsA types t :=
  ht.isA Slot.takes_typeDecl (buildsAs_typeDecl.2 h)

theorem isA_of_threads (hslot : slot.Takes ps) (hts : ∀ u ∈ ts, Sound u)
    (h : Threads (BuildsAs slot o) ts s as s') : ∀ u ∈ ts, IsA ps u := by
  induction h with
  | nil => simp
  | cons head _ ih =>
    rw [List.forall_mem_cons] at hts ⊢
    exact ⟨hts.1.isA hslot head, ih hts.2⟩

theorem isValue_of_buildsValue {e : Element ParseTree} {v : Value} (he : ∀ u ∈ e.trees, Sound u)
    (h : e.BuildsValue o s v s') : IsValue e := by
  cases e with
  | token text => exact .token
  | tree t => exact .tree ((he t (by simp)).isA Slot.takes_value h)
  | list ts => exact h.elim

theorem isBounds_of_yields {b : Bounds} (hes : ∀ u ∈ es.flatMap Element.trees, Sound u)
    (h : YieldsBounds o es s b s') : IsBounds es := by
  obtain ⟨hlo, hhi⟩ := h
  exact .mk (isValue_of_buildsValue (fun u hu => hes u (by simp [hu])) hlo)
    (isValue_of_buildsValue (fun u hu => hes u (by simp [hu])) hhi)

theorem isNamedType_of_yields {identifier : String} {type : TypeDecl}
    (hes : ∀ u ∈ es.flatMap Element.trees, Sound u) (h : YieldsMember o es s identifier type s') :
    IsNamedType es := by
  cases h with
  | anonymous _ ht => exact .anonymous ((hes _ (by simp)).isType ht)
  | named ht => exact .named ((hes _ (by simp)).isType ht)

/-- What is held below a tree that is held is smaller than the whole tree. -/
theorem sizeOf_lt_of_mem_held_held {u w : ParseTree} (hu : u ∈ t.held) (hw : w ∈ u.held) :
    sizeOf w < sizeOf t :=
  Nat.lt_trans (sizeOf_lt_of_mem_held hw) (sizeOf_lt_of_mem_held hu)

theorem sizeOf_lt_of_mem_assignments {m e₁ e₂ e₃ e₄ e₅ exports imports : Element ParseTree}
    {u : ParseTree} (hu : u ∈ ts) :
    sizeOf u < sizeOf (Tree.node Production.moduleDefinition [m, e₁, e₂, e₃, e₄,
      .tree (.node .moduleBody [exports, imports, .tree (.node .assignmentList (ts.map .tree))]),
      e₅]) := by
  have := sizeOf_lt_of_mem_held (t := .node .assignmentList (ts.map .tree)) (u := u)
    (by simpa [held, List.flatMap_map] using hu)
  simp at *; omega

/-- What is held by a named type in one of the forms of a component. -/
theorem sizeOf_lt_of_mem_form {p : Production} {u : ParseTree} {fs : List (Element ParseTree)}
    (hu : u ∈ es.flatMap Element.trees) :
    sizeOf u < sizeOf (Tree.node Production.componentType
      [.tree (.node p (.tree (.node .namedType es) :: fs))]) := by
  have := sizeOf_lt_of_mem_held (t := .node .namedType es) hu
  simp at *; omega

theorem sound_step (ih : ∀ u, sizeOf u < sizeOf t → Sound u) : Sound t := by
  intro o s n s' h
  have hheld : ∀ u ∈ t.held, Sound u := fun u hu => ih u (sizeOf_lt_of_mem_held hu)
  -- Constraints and the forms of a component are read in their places: what they hold is built.
  have hbelow : ∀ u ∈ t.held, ∀ w ∈ u.held, Sound w := fun u hu w hw =>
    ih w (sizeOf_lt_of_mem_held_held hu hw)
  cases yields_of_gives h with
  | wrapper ht => exact .wrapper (hheld _ (by simp [held]) ht)
  | module has =>
    exact .module (isA_of_threads Slot.takes_assignment
      (fun u hu => ih u (sizeOf_lt_of_mem_assignments hu)) has)
  | typeAssignment ht => exact .typeAssignment ((hheld _ (by simp [held])).isType ht)
  | valueAssignment ht he =>
    exact .valueAssignment ((hheld _ (by simp [held])).isType ht)
      (isValue_of_buildsValue (fun u hu => hheld u (by simp [held, hu])) he)
  | @constructed _ kind _ _ _ _ _ hp hms =>
    refine .constructed (hp ▸ ?_)
      (isA_of_threads Slot.takes_member (fun u hu => hheld u (by simp [held, hu])) hms)
    cases kind <;> simp [ConstructedKind.production]
  | @collection _ kind _ _ _ _ hp ht =>
    refine .collection (hp ▸ ?_) ((hheld _ (by simp [held])).isType ht)
    cases kind <;> simp [CollectionKind.production]
  | @sizedCollection _ kind bs _ _ _ _ _ _ hp hbs ht =>
    refine .sizedCollection (hp ▸ ?_) (isBounds_of_yields ?_ hbs)
      ((hheld _ (by simp [held])).isType ht)
    · cases kind <;> simp [CollectionKind.production]
    · exact hbelow (.node .sizeConstraint bs) (by simp [held])
  | tagged hgs ht => exact .tagged (isTag_iff.2 ⟨_, hgs⟩) ((hheld _ (by simp [held])).isType ht)
  | taggedWithKeyword hgs ht =>
    exact .taggedWithKeyword (isTag_iff.2 ⟨_, hgs⟩) ((hheld _ (by simp [held])).isType ht)
  | simple => exact .simple
  | @constrained _ bs _ _ _ hbs =>
    exact .constrained (isBounds_of_yields (hbelow (.node .constraint bs) (by simp [held])) hbs)
  | typeReference hes | valueReference hes =>
    cases hes with
    | bare => exact .reference (by simp)
    | qualified => exact .qualifiedReference (by simp)
  | valueListName | bitStringName => exact .unlisted (by simp)
  | valueList hts hnumbered =>
    exact .valueList
      (isA_of_threads Slot.takes_listItem (fun u hu => hheld u (by simp [held, hu])) hts)
      (filterMap_number? hts ▸ exists_numberItems_iff.1 ⟨_, hnumbered⟩)
  | bitString hts =>
    exact .bitString
      (isA_of_threads Slot.takes_listItem (fun u hu => hheld u (by simp [held, hu])) hts)
  | sizeConstraint hbs => exact .sizeConstraint (isBounds_of_yields hheld hbs)
  | @required ms _ _ _ _ hms =>
    exact .required (isNamedType_of_yields (hbelow (.node .namedType ms) (by simp [held])) hms)
  | optional hms =>
    exact .optional (isNamedType_of_yields (fun u hu => ih u (sizeOf_lt_of_mem_form hu)) hms)
  | @default ms e _ _ _ _ _ _ hms he =>
    exact .default (isNamedType_of_yields (fun u hu => ih u (sizeOf_lt_of_mem_form hu)) hms)
      (isValue_of_buildsValue
        (fun u hu => hbelow (.node .componentTypeDefault [.tree (.node .namedType ms), e])
          (by simp [held]) u (by simp [held, hu])) he)
  | @componentsOf u _ _ _ ht =>
    exact .componentsOf ((hbelow (.node .componentTypeComponentsOf [.tree u]) (by simp [held]) u
      (by simp [held])).isType ht)
  | namedType hms => exact .namedType (isNamedType_of_yields hheld hms)
  | namedValue => exact .namedValue
  | numberedValue => exact .numberedValue
  | extensionMarker => exact .extensionMarker
  | objectIdentifier hcs =>
    exact .objectIdentifier (isA_of_threads Slot.takes_arc
      (fun u hu => hheld u (by simp [held, List.flatMap_map, hu])) hcs)
  | binaryString | hexString | nameForm | numberForm => exact .text (by simp)
  | nameAndNumber => exact .nameAndNumber

theorem sound (t : ParseTree) : Sound t :=
  sound_step fun u _ => sound u
termination_by sizeOf t

/-! ## What is well formed can be built -/

theorem exists_collectionKind {p : Production} (hp : p ∈ [sequenceOfType, setOfType]) :
    ∃ kind : CollectionKind, p = kind.production := by
  rcases List.mem_pair.1 hp with rfl | rfl
  exacts [⟨.sequenceOf, rfl⟩, ⟨.setOf, rfl⟩]

/-- The tree can be built, however many numbers have been drawn. -/
def Complete (o : BuildOptions) (t : ParseTree) : Prop := ∀ s, ∃ n s', t.build.Gives o s n s'

theorem exists_buildsAs (hslot : slot.Takes ps) (ht : IsA ps t)
    (hb : WellFormed t → Complete o t) (s : Nat) : ∃ a s', t.BuildsAs slot o s a s' := by
  obtain ⟨hwf, hp⟩ := ht
  obtain ⟨n, s', hn⟩ := hb hwf s
  obtain ⟨a, ha⟩ := (hslot n).2 (production_eq hn ▸ hp)
  exact ⟨a, s', n, hn, ha⟩

theorem exists_type (ht : IsA types t) (hb : WellFormed t → Complete o t) (s : Nat) :
    ∃ type s', t.build.Gives o s (.type type) s' := by
  obtain ⟨type, s', h⟩ := exists_buildsAs Slot.takes_typeDecl ht hb s
  exact ⟨type, s', buildsAs_typeDecl.1 h⟩

theorem exists_threads (hslot : slot.Takes ps) (hts : ∀ u ∈ ts, IsA ps u)
    (hb : ∀ u ∈ ts, WellFormed u → Complete o u) (s : Nat) :
    ∃ as s', Threads (BuildsAs slot o) ts s as s' :=
  Threads.exists_of_forall (fun u hu s => exists_buildsAs hslot (hts u hu) (hb u hu) s) s

theorem exists_value {e : Element ParseTree} (he : IsValue e)
    (hb : ∀ u ∈ e.trees, WellFormed u → Complete o u) (s : Nat) :
    ∃ v s', e.BuildsValue o s v s' := by
  cases he with
  | token => exact ⟨_, s, rfl, rfl⟩
  | tree ht => exact exists_buildsAs Slot.takes_value ht (hb _ (by simp)) s

theorem exists_bounds (hes : IsBounds es)
    (hb : ∀ u ∈ es.flatMap Element.trees, WellFormed u → Complete o u) (s : Nat) :
    ∃ b s', YieldsBounds o es s b s' := by
  obtain ⟨hlo, hhi⟩ := hes
  obtain ⟨min, s₁, hmin⟩ := exists_value hlo (fun u hu => hb u (by simp [hu])) s
  obtain ⟨max, s', hmax⟩ := exists_value hhi (fun u hu => hb u (by simp [hu])) s₁
  exact ⟨⟨min, max⟩, s', .mk hmin hmax⟩

theorem exists_member (ho : o.nameAnonymous = true) (hes : IsNamedType es)
    (hb : ∀ u ∈ es.flatMap Element.trees, WellFormed u → Complete o u) (s : Nat) :
    ∃ identifier type s', YieldsMember o es s identifier type s' := by
  cases hes with
  | anonymous ht =>
    obtain ⟨type, s', hu⟩ := exists_type ht (hb _ (by simp)) (s + 1)
    exact ⟨_, type, s', .anonymous ho hu⟩
  | named ht =>
    obtain ⟨type, s', hu⟩ := exists_type ht (hb _ (by simp)) s
    exact ⟨_, type, s', .named hu⟩

theorem exists_yields (ho : o.nameAnonymous = true)
    (ih : ∀ u, sizeOf u < sizeOf t → WellFormed u → Complete o u) (ht : WellFormed t) (s : Nat) :
    ∃ n s', Yields o t s n s' := by
  have hheld : ∀ u ∈ t.held, WellFormed u → Complete o u := fun u hu =>
    ih u (sizeOf_lt_of_mem_held hu)
  have hbelow : ∀ u ∈ t.held, ∀ w ∈ u.held, WellFormed w → Complete o w := fun u hu w hw =>
    ih w (sizeOf_lt_of_mem_held_held hu hw)
  cases ht with
  | wrapper ht =>
    obtain ⟨n, s', hn⟩ := hheld _ (by simp [held]) ht s
    exact ⟨n, s', .wrapper hn⟩
  | @module name _ _ _ _ _ _ _ _ _ has =>
    obtain ⟨assignments, s', h⟩ := exists_threads Slot.takes_assignment has
      (fun u hu => ih u (sizeOf_lt_of_mem_assignments hu)) s
    exact ⟨_, s', .module (m := ⟨name, assignments⟩) h⟩
  | typeAssignment ht =>
    obtain ⟨type, s', h⟩ := exists_type ht (hheld _ (by simp [held])) s
    exact ⟨_, s', .typeAssignment h⟩
  | valueAssignment ht he =>
    obtain ⟨type, s₁, h⟩ := exists_type ht (hheld _ (by simp [held])) s
    obtain ⟨v, s', hv⟩ := exists_value he (fun u hu => hheld u (by simp [held, hu])) s₁
    exact ⟨_, s', .valueAssignment h hv⟩
  | @constructed p _ _ hp hms =>
    obtain ⟨members, s', h⟩ := exists_threads Slot.takes_member hms
      (fun u hu => hheld u (by simp [held, hu])) s
    obtain ⟨kind, hkind⟩ : ∃ kind : ConstructedKind, p = kind.production := by
      simp only [List.mem_cons, List.not_mem_nil, or_false] at hp
      rcases hp with rfl | rfl | rfl
      exacts [⟨.sequence, rfl⟩, ⟨.set, rfl⟩, ⟨.choice, rfl⟩]
    exact ⟨_, s', .constructed hkind h⟩
  | collection hp ht =>
    obtain ⟨kind, hkind⟩ := exists_collectionKind hp
    obtain ⟨element, s', h⟩ := exists_type ht (hheld _ (by simp [held])) s
    exact ⟨_, s', .collection hkind h⟩
  | @sizedCollection _ bs _ hp hbs ht =>
    obtain ⟨kind, hkind⟩ := exists_collectionKind hp
    obtain ⟨size, s₁, hsize⟩ := exists_bounds hbs
      (hbelow (.node .sizeConstraint bs) (by simp [held])) s
    obtain ⟨element, s', h⟩ := exists_type ht (hheld _ (by simp [held])) s₁
    exact ⟨_, s', .sizedCollection hkind hsize h⟩
  | tagged hgs ht =>
    obtain ⟨tag, htag⟩ := isTag_iff.1 hgs
    obtain ⟨type, s', h⟩ := exists_type ht (hheld _ (by simp [held])) s
    exact ⟨_, s', .tagged htag h⟩
  | taggedWithKeyword hgs ht =>
    obtain ⟨tag, htag⟩ := isTag_iff.1 hgs
    obtain ⟨type, s', h⟩ := exists_type ht (hheld _ (by simp [held])) s
    exact ⟨_, s', .taggedWithKeyword htag h⟩
  | simple => exact ⟨_, s, .simple⟩
  | @constrained _ bs hbs =>
    obtain ⟨range, s', h⟩ := exists_bounds hbs (hbelow (.node .constraint bs) (by simp [held])) s
    exact ⟨_, s', .constrained h⟩
  | reference hp =>
    rcases List.mem_pair.1 hp with rfl | rfl
    exacts [⟨_, s, .typeReference .bare⟩, ⟨_, s, .valueReference .bare⟩]
  | qualifiedReference hp =>
    rcases List.mem_pair.1 hp with rfl | rfl
    exacts [⟨_, s, .typeReference .qualified⟩, ⟨_, s, .valueReference .qualified⟩]
  | unlisted hp =>
    rcases List.mem_pair.1 hp with rfl | rfl
    exacts [⟨_, s, .valueListName⟩, ⟨_, s, .bitStringName⟩]
  | valueList his hnumbers =>
    obtain ⟨items, s', h⟩ := exists_threads Slot.takes_listItem his
      (fun u hu => hheld u (by simp [held, hu])) s
    obtain ⟨numbered, hnumbered⟩ := exists_numberItems_iff.2 (filterMap_number? h ▸ hnumbers)
    exact ⟨_, s', .valueList h hnumbered⟩
  | bitString his =>
    obtain ⟨items, s', h⟩ := exists_threads Slot.takes_listItem his
      (fun u hu => hheld u (by simp [held, hu])) s
    exact ⟨_, s', .bitString h⟩
  | sizeConstraint hbs =>
    obtain ⟨size, s', h⟩ := exists_bounds hbs hheld s
    exact ⟨_, s', .sizeConstraint h⟩
  | @required ms hms =>
    obtain ⟨identifier, type, s', h⟩ := exists_member ho hms
      (hbelow (.node .namedType ms) (by simp [held])) s
    exact ⟨_, s', .required h⟩
  | optional hms =>
    obtain ⟨identifier, type, s', h⟩ := exists_member ho hms
      (fun u hu => ih u (sizeOf_lt_of_mem_form hu)) s
    exact ⟨_, s', .optional h⟩
  | @default ms e hms he =>
    obtain ⟨identifier, type, s₁, h⟩ := exists_member ho hms
      (fun u hu => ih u (sizeOf_lt_of_mem_form hu)) s
    obtain ⟨v, s', hv⟩ := exists_value he (fun u hu =>
      hbelow (.node .componentTypeDefault [.tree (.node .namedType ms), e]) (by simp [held]) u
        (by simp [held, hu])) s₁
    exact ⟨_, s', .default h hv⟩
  | @componentsOf u ht =>
    obtain ⟨type, s', h⟩ := exists_type ht
      (hbelow (.node .componentTypeComponentsOf [.tree u]) (by simp [held]) u (by simp [held])) s
    exact ⟨_, s', .componentsOf h⟩
  | namedType hms =>
    obtain ⟨identifier, type, s', h⟩ := exists_member ho hms hheld s
    exact ⟨_, s', .namedType h⟩
  | namedValue => exact ⟨_, s, .namedValue⟩
  | numberedValue => exact ⟨_, s, .numberedValue⟩
  | extensionMarker => exact ⟨_, s, .extensionMarker⟩
  | objectIdentifier hcs =>
    obtain ⟨components, s', h⟩ := exists_threads Slot.takes_arc hcs
      (fun u hu => hheld u (by simp [held, List.flatMap_map, hu])) s
    exact ⟨_, s', .objectIdentifier h⟩
  | text hp =>
    simp only [List.mem_cons, List.not_mem_nil, or_false] at hp
    rcases hp with rfl | rfl | rfl | rfl
    exacts [⟨_, s, .nameForm⟩, ⟨_, s, .numberForm⟩, ⟨_, s, .binaryString⟩, ⟨_, s, .hexString⟩]
  | nameAndNumber => exact ⟨_, s, .nameAndNumber⟩

theorem complete (ho : o.nameAnonymous = true) (t : ParseTree) (ht : WellFormed t) :
    Complete o t := by
  intro s
  obtain ⟨n, s', h⟩ := exists_yields ho (fun u _ => complete ho u) ht s
  exact ⟨n, s', gives_of_yields h⟩
termination_by sizeOf t

end ParseTree

/-- With names for anonymous members, exactly the well-formed trees can be built, however many names
have been generated before. -/
theorem exists_build_iff_wellFormed (o : BuildOptions) (ho : o.nameAnonymous = true) (drawn : Nat)
    (t : ParseTree) :
    (∃ n drawn', t.build.runFrom o drawn = (.ok n, drawn')) ↔ t.WellFormed :=
  ⟨fun ⟨_, _, h⟩ => ParseTree.sound t h, fun h => ParseTree.complete ho t h drawn⟩

/-- The anonymous member `NULL`. -/
theorem exists_build_iff_wellFormed_anonymous :
    ({} : BuildOptions).nameAnonymous = true ∧
      ParseTree.WellFormed (.node .namedType
        [.tree (.node .type [.tree (.node .simpleType [.token "NULL"])])]) :=
  ⟨rfl, (exists_build_iff_wellFormed {} rfl 0 _).1
    ⟨.namedType "unnamed1" (.simple "NULL" none), 1, by rfl⟩⟩

end AsnModel
