import AsnModel.Proofs.Build.Agreement

/-!
# Errors report real faults

Whatever the production, building a tree comes to the same in all runs that treat anonymous members
alike, and its errors are explained by the tree.
-/

namespace AsnModel

open ParseTree

variable {o o' : BuildOptions} {t u : ParseTree} {i : Nat}

namespace Reading

/-! ## Tokens and values -/

theorem agree_readToken (hu : u ∈ t.held) :
    Agree o o' t i (fun text text' j => text = text' ∧ j = i) (monadLift (u.draft.read token))
      (monadLift (u.draft.read token)) :=
  agree_mono (agree_read (within_of_mem_held hu) agree_token)
    fun _ _ _ ⟨⟨_, h, _⟩, hj⟩ => ⟨h, hj⟩

theorem agree_onlyToken :
    Agree o o' t i (fun text text' _ => text = text') onlyToken onlyToken := by
  refine agree_bind agree_token ?_
  rintro text _ _ ⟨rfl, -⟩
  refine agree_bind agree_finish fun _ _ _ _ => ?_
  exact agree_pure rfl

theorem agree_readOnlyToken (hu : u ∈ t.held) :
    Agree o o' t i (fun text text' j => text = text' ∧ j = i)
      (monadLift (u.draft.read onlyToken)) (monadLift (u.draft.read onlyToken)) :=
  agree_mono (agree_read (within_of_mem_held hu) agree_onlyToken) fun _ _ _ ⟨⟨_, h⟩, hj⟩ => ⟨h, hj⟩

theorem agree_qualifier : Agree o o' t i (fun q q' _ => q = q') qualifier qualifier := by
  refine agree_mono (agree_ifNext (Q := fun a a' _ => a = a') ?_) ?_
  · refine agree_bind agree_node ?_
    rintro _ _ _ ⟨rfl, -, u, hu, rfl, -⟩
    exact agree_mono (agree_readToken (mem_held_of_getElem? hu)) fun _ _ _ ⟨h, _⟩ => h
  · rintro _ _ _ (⟨q, _, rfl, rfl, rfl⟩ | ⟨rfl, rfl, -⟩) <;> rfl

theorem agree_qualifiedName :
    Agree o o' t i (fun n n' _ => n = n') qualifiedName qualifiedName := by
  refine agree_bind agree_qualifier ?_
  rintro q _ _ rfl
  refine agree_bind agree_onlyToken ?_
  rintro name _ _ rfl
  exact agree_pure rfl

theorem agree_objectIdentifier (h : ∀ u ∈ t.held, u.Agrees o o') :
    Agree o o' t 0 (fun cs cs' _ => cs = cs') objectIdentifier objectIdentifier :=
  agree_mono (agree_forEachLeft (Nat.zero_le _) fun _ => agree_next .arc Slot.erases_arc h)
    fun _ _ _ ⟨hcs, _⟩ => by simpa using hcs

theorem agree_nameAndNumber :
    Agree o o' t i (fun a a' _ => a = a') nameAndNumber nameAndNumber := by
  refine agree_bind agree_node ?_
  rintro _ _ _ ⟨rfl, -, u, hu, rfl, -⟩
  refine agree_bind (agree_readOnlyToken (mem_held_of_getElem? hu)) ?_
  rintro name _ _ ⟨rfl, rfl⟩
  refine agree_bind agree_node ?_
  rintro _ _ _ ⟨rfl, -, w, hw, rfl, -⟩
  refine agree_bind (agree_readOnlyToken (mem_held_of_getElem? hw)) ?_
  rintro number _ _ ⟨rfl, rfl⟩
  refine agree_bind agree_finish fun _ _ _ _ => ?_
  exact agree_pure rfl

theorem agree_namedValue :
    Agree o o' t i (fun v v' _ => v = v') namedValue namedValue := by
  refine agree_bind (agree_ifNext agree_token) ?_
  rintro _ _ _ (⟨identifier, _, rfl, rfl, rfl, -⟩ | ⟨rfl, rfl, rfl⟩)
  · refine agree_bind agree_finish fun _ _ _ _ => ?_
    exact agree_pure rfl
  · refine agree_bind agree_node ?_
    rintro _ _ _ ⟨rfl, -, u, hu, rfl, -⟩
    refine agree_bind (agree_readToken (mem_held_of_getElem? hu)) ?_
    rintro identifier _ _ ⟨rfl, rfl⟩
    refine agree_bind agree_node ?_
    rintro _ _ _ ⟨rfl, -, w, hw, rfl, -⟩
    refine agree_bind (agree_readOnlyToken (mem_held_of_getElem? hw)) ?_
    rintro number _ _ ⟨rfl, rfl⟩
    refine agree_bind agree_finish fun _ _ _ _ => ?_
    exact agree_pure rfl

/-! ## Types -/

theorem agree_bounds (h : ∀ u ∈ t.held, u.Agrees o o') :
    Agree o o' t i (fun b b' _ => b = b') bounds bounds := by
  refine agree_bind (agree_value h) ?_
  rintro min _ _ ⟨rfl, -⟩
  refine agree_bind (agree_value h) ?_
  rintro max _ _ ⟨rfl, -⟩
  refine agree_bind agree_finish fun _ _ _ _ => ?_
  exact agree_pure rfl

theorem agree_readBounds (h : t.AgreesBelow o o') (hu : u ∈ t.held) :
    Agree o o' t i (fun b b' j => b = b' ∧ j = i) (monadLift (u.draft.read bounds))
      (monadLift (u.draft.read bounds)) :=
  have hwithin := within_of_mem_held hu
  agree_mono (agree_read hwithin (agree_bounds (h.of_within hwithin).held))
    fun _ _ _ ⟨⟨_, hb⟩, hj⟩ => ⟨hb, hj⟩

/-- A type in its place differs in names only. -/
theorem agree_fitType (h : ∀ u ∈ t.held, u.Agrees o o') (hu : u ∈ t.held) :
    Agree o o' t i (fun a a' _ => a.nameless = a'.nameless) (fit .typeDecl u.draft)
      (fit .typeDecl u.draft) :=
  agree_mono (agree_fit .typeDecl Slot.erases_typeDecl hu (h u hu)) fun _ _ _ ⟨ha, _⟩ => ha

theorem agree_nextType (h : ∀ u ∈ t.held, u.Agrees o o') :
    Agree o o' t i (fun a a' _ => a.nameless = a'.nameless) (next .typeDecl) (next .typeDecl) :=
  agree_mono (agree_next .typeDecl Slot.erases_typeDecl h) fun _ _ _ ⟨ha, _⟩ => ha

theorem agree_constructed {kind : ConstructedKind} (h : ∀ u ∈ t.held, u.Agrees o o') :
    Agree o o' t i (fun a a' _ => a.nameless = a'.nameless) (constructed kind)
      (constructed kind) := by
  refine agree_bind agree_token ?_
  rintro keyword _ _ ⟨rfl, -⟩
  refine agree_bind agree_list ?_
  rintro _ _ _ ⟨rfl, -, us, hus, rfl⟩
  refine agree_bind agree_finish fun _ _ _ _ => ?_
  refine agree_bind (agree_mapM_fit .member Slot.erases_member fun u hu =>
    have hheld := mem_held_of_getElem?_list hus hu
    ⟨hheld, h u hheld⟩) ?_
  rintro members members' _ ⟨hmembers, -⟩
  exact agree_pure (by simpa [TypeDecl.nameless] using hmembers)

theorem agree_collection {kind : CollectionKind} (h : t.AgreesBelow o o') :
    Agree o o' t i (fun a a' _ => a.nameless = a'.nameless) (collection kind)
      (collection kind) := by
  refine agree_bind agree_node ?_
  rintro _ _ _ ⟨rfl, -, first, hfirst, rfl, -⟩
  split
  · refine agree_bind (agree_readBounds h (mem_held_of_getElem? hfirst)) ?_
    rintro size _ _ ⟨rfl, rfl⟩
    refine agree_bind agree_node ?_
    rintro _ _ _ ⟨rfl, -, element, helement, rfl, -⟩
    refine agree_bind agree_finish fun _ _ _ _ => ?_
    refine agree_bind (agree_fitType h.held (mem_held_of_getElem? helement)) fun a a' _ ha => ?_
    exact agree_pure (by simpa [TypeDecl.nameless] using ha)
  · refine agree_bind agree_finish fun _ _ _ _ => ?_
    refine agree_bind (agree_fitType h.held (mem_held_of_getElem? hfirst)) fun a a' _ ha => ?_
    exact agree_pure (by simpa [TypeDecl.nameless] using ha)

theorem agree_typeTag : Agree o o' t 0 (fun tag tag' _ => tag = tag') typeTag typeTag := by
  refine agree_bind (agree_forEachLeft (f := id) (Nat.zero_le _) fun j => ?_) ?_
  · refine agree_bind agree_node ?_
    rintro _ _ _ ⟨rfl, rfl, part, hpart, rfl, -⟩
    refine agree_bind (agree_readToken (mem_held_of_getElem? hpart)) ?_
    rintro text _ _ ⟨rfl, rfl⟩
    exact agree_pure ⟨rfl, rfl⟩
  · rintro parts parts' _ ⟨hparts, rfl⟩
    obtain rfl : parts = parts' := by simpa using hparts
    dsimp only
    split
    · exact agree_pure rfl
    · -- All elements have been read, and none of them is a number.
      refine agree_bind agree_get ?_
      rintro _ _ _ ⟨rfl, rfl, rfl⟩
      refine agree_fail fun u hu => ?_
      simp [cursor, Cursor.onto] at hu

theorem agree_tagged (h : t.AgreesBelow o o') :
    Agree o o' t i (fun a a' _ => a.nameless = a'.nameless) tagged tagged := by
  refine agree_bind agree_node ?_
  rintro _ _ _ ⟨rfl, -, u, hu, rfl, -⟩
  refine agree_bind (agree_read (within_of_mem_held (mem_held_of_getElem? hu)) agree_typeTag) ?_
  rintro tag _ _ ⟨⟨-, rfl⟩, rfl⟩
  refine agree_bind (agree_ifNext agree_token) fun keyword keyword' _ hkeyword => ?_
  obtain rfl : keyword = keyword' := by
    rcases hkeyword with ⟨_, _, rfl, rfl, rfl, -⟩ | ⟨rfl, rfl, -⟩ <;> rfl
  refine agree_bind (agree_nextType h.held) fun a a' _ ha => ?_
  refine agree_bind agree_finish fun _ _ _ _ => ?_
  exact agree_pure (by simpa [TypeDecl.nameless] using ha)

theorem agree_simple (h : t.AgreesBelow o o') :
    Agree o o' t i (fun a a' _ => a.nameless = a'.nameless) simple simple := by
  refine agree_bind agree_token ?_
  rintro name _ _ ⟨rfl, -⟩
  refine agree_bind (agree_ifNext (Q := fun b b' _ => b = b') ?_) fun range range' _ hrange => ?_
  · refine agree_bind agree_node ?_
    rintro _ _ _ ⟨rfl, -, u, hu, rfl, -⟩
    exact agree_mono (agree_readBounds h (mem_held_of_getElem? hu)) fun _ _ _ ⟨hb, _⟩ => hb
  · obtain rfl : range = range' := by
      rcases hrange with ⟨_, _, rfl, rfl, rfl⟩ | ⟨rfl, rfl, -⟩ <;> rfl
    refine agree_bind agree_finish fun _ _ _ _ => ?_
    exact agree_pure rfl

/-! ## Lists of named values -/

/-- Named values have no members, and therefore are the same in all runs. -/
theorem agree_listItems (h : ∀ u ∈ t.held, u.Agrees o o') :
    Agree o o' t i (fun items items' _ => items = items' ∧ ∀ is ∈ items, ∃ us,
      t.elements[i]? = some (.list us) ∧
        List.Forall₂ (BuildsTo o Slot.listItem id) us is) listItems listItems := by
  refine agree_mono (agree_ifNext (Q := fun is is' _ => is = is' ∧ ∃ us,
    t.elements[i]? = some (.list us) ∧ List.Forall₂ (BuildsTo o Slot.listItem id) us is) ?_) ?_
  · refine agree_bind agree_list ?_
    rintro _ _ _ ⟨rfl, -, us, hus, rfl⟩
    refine agree_mono (agree_mapM_fit .listItem Slot.erases_listItem fun u hu =>
      have hheld := mem_held_of_getElem?_list hus hu
      ⟨hheld, h u hheld⟩) ?_
    rintro is is' _ ⟨his, -, hbuilds⟩
    exact ⟨by simpa using his, us, hus, hbuilds⟩
  · rintro _ _ _ (⟨is, _, rfl, rfl, rfl, hus⟩ | ⟨rfl, rfl, -⟩)
    · exact ⟨rfl, by simpa using hus⟩
    · exact ⟨rfl, by simp⟩

theorem agree_bitString (h : ∀ u ∈ t.held, u.Agrees o o') :
    Agree o o' t i (fun a a' _ => a.nameless = a'.nameless) bitString bitString := by
  refine agree_bind agree_token ?_
  rintro name _ _ ⟨rfl, -⟩
  refine agree_bind (agree_listItems h) ?_
  rintro items _ _ ⟨rfl, -⟩
  refine agree_bind agree_finish fun _ _ _ _ => ?_
  exact agree_pure rfl

theorem hasDefect_of_numberItems {us : List ParseTree} {items : List (ListItem (Option String))}
    {defect : Defect} (hlabel : t.label = .valueListType)
    (hus : t.elements[1]? = some (.list us))
    (hbuilds : List.Forall₂ (BuildsTo o Slot.listItem id) us items)
    (h : numberItems items = .error defect) : t.HasDefect o defect := by
  obtain ⟨identifier, previous, hafter, hfail⟩ := exists_takesNumberAfter_of_eq_error h
  have hnumbers : t.NumbersAfter o identifier previous := by
    refine ⟨hlabel, us, items, hus, hbuilds.imp fun u item hu drawn => ?_, hafter⟩
    obtain ⟨n, drawn', hn, hitem⟩ := hu drawn
    obtain rfl : n = item.node := by simpa using hitem
    exact ⟨drawn', hn⟩
  rcases successor_eq_error hfail with ⟨rfl, hprevious⟩ | ⟨rfl, hprevious⟩
  · exact ⟨hnumbers, hprevious⟩
  · exact ⟨hnumbers, hprevious⟩

theorem agree_valueList (hlabel : t.label = .valueListType) (h : ∀ u ∈ t.held, u.Agrees o o') :
    Agree o o' t 0 (fun a a' _ => a.nameless = a'.nameless) valueList valueList := by
  refine agree_bind agree_token ?_
  rintro name _ _ ⟨rfl, rfl, -⟩
  refine agree_bind (agree_listItems h) ?_
  rintro items _ _ ⟨rfl, hitems⟩
  refine agree_bind agree_finish fun _ _ _ _ => ?_
  cases items with
  | none => exact agree_pure rfl
  | some items =>
    obtain ⟨us, hus, hbuilds⟩ := hitems items rfl
    dsimp only
    cases hnumbered : numberItems items with
    | ok numbered => exact agree_pure rfl
    | error defect => exact agree_fail (hasDefect_of_numberItems hlabel hus hbuilds hnumbered)

/-! ## Members -/

/-- The runs may give an anonymous member different names. -/
theorem agree_namedType (ho : o.nameAnonymous = o'.nameAnonymous) (hlabel : t.label = .namedType)
    (h : ∀ u ∈ t.held, u.Agrees o o') :
    Agree o o' t 0 (fun m m' _ => m.2.nameless = m'.2.nameless) namedType namedType := by
  refine agree_bind agree_node ?_
  rintro _ _ _ ⟨rfl, -, first, hfirst, rfl, -⟩
  rw [production_draft]
  split
  case isTrue htype =>
    refine agree_bind agree_options fun a a' _ ⟨ha, ha', _⟩ => ?_
    rw [ha, ha', ← ho]
    cases hname : o.nameAnonymous with
    | false =>
      refine agree_bind (P := fun _ _ _ => False) (agree_fail ⟨hlabel, ⟨first, ?_, htype⟩, hname⟩)
        nofun
      simp [Tree.first?, List.head?_eq_getElem?, hfirst]
    | true =>
      refine agree_bind (agree_lift .placeholder) fun _ _ _ _ => ?_
      refine agree_bind agree_finish fun _ _ _ _ => ?_
      exact agree_bind (agree_fitType h (mem_held_of_getElem? hfirst)) fun _ _ _ ha =>
        agree_pure ha
  case isFalse =>
    refine agree_bind (agree_readToken (mem_held_of_getElem? hfirst)) ?_
    rintro identifier _ _ ⟨rfl, rfl⟩
    refine agree_bind agree_node ?_
    rintro _ _ _ ⟨rfl, -, type, htype, rfl, -⟩
    refine agree_bind agree_finish fun _ _ _ _ => ?_
    exact agree_bind (agree_fitType h (mem_held_of_getElem? htype)) fun _ _ _ ha => agree_pure ha

section Components

variable (ho : o.nameAnonymous = o'.nameAnonymous) (h : t.AgreesBelow o o')

include ho h

theorem agree_requiredComponent (hlabel : t.label = .namedType) :
    Agree o o' t 0 (fun c c' _ => c.nameless = c'.nameless) requiredComponent
      requiredComponent := by
  refine agree_bind (agree_namedType ho hlabel h.held) fun m m' _ hm => ?_
  exact agree_pure (by simpa [Component.nameless] using hm)

theorem agree_readNamedType (hu : u ∈ t.held) (hlabel : u.label = .namedType) :
    Agree o o' t i (fun m m' _ => m.2.nameless = m'.2.nameless)
      (monadLift (u.draft.read namedType)) (monadLift (u.draft.read namedType)) :=
  have hwithin := within_of_mem_held hu
  agree_mono (agree_read hwithin (agree_namedType ho hlabel (h.of_within hwithin).held))
    fun _ _ _ ⟨⟨_, hm⟩, _⟩ => hm

theorem agree_optionalComponent :
    Agree o o' t i (fun c c' _ => c.nameless = c'.nameless) optionalComponent
      optionalComponent := by
  refine agree_bind agree_node ?_
  rintro _ _ _ ⟨rfl, -, u, hu, rfl, hlabel⟩
  refine agree_bind (agree_readNamedType ho h (mem_held_of_getElem? hu) (by simpa using hlabel))
    fun m m' _ hm => ?_
  refine agree_bind agree_finish fun _ _ _ _ => ?_
  exact agree_pure (by simpa [Component.nameless] using hm)

theorem agree_defaultComponent :
    Agree o o' t i (fun c c' _ => c.nameless = c'.nameless) defaultComponent
      defaultComponent := by
  refine agree_bind agree_node ?_
  rintro _ _ _ ⟨rfl, -, u, hu, rfl, hlabel⟩
  refine agree_bind (agree_readNamedType ho h (mem_held_of_getElem? hu) (by simpa using hlabel))
    fun m m' _ hm => ?_
  refine agree_bind (agree_value h.held) ?_
  rintro default _ _ ⟨rfl, -⟩
  refine agree_bind agree_finish fun _ _ _ _ => ?_
  exact agree_pure (by simpa [Component.nameless] using hm)

omit ho in
theorem agree_includedComponents :
    Agree o o' t i (fun c c' _ => c.nameless = c'.nameless) includedComponents
      includedComponents := by
  refine agree_bind (agree_nextType h.held) fun a a' _ ha => ?_
  refine agree_bind agree_finish fun _ _ _ _ => ?_
  exact agree_pure (by simpa [Component.nameless] using ha)

theorem agree_component :
    Agree o o' t i (fun c c' _ => c.nameless = c'.nameless) component component := by
  refine agree_bind agree_node ?_
  rintro _ _ _ ⟨rfl, -, form, hform, rfl, -⟩
  refine agree_bind agree_finish fun _ _ _ _ => ?_
  have hwithin := within_of_mem_held (mem_held_of_getElem? hform)
  have hbelow := h.of_within hwithin
  refine agree_mono (agree_read hwithin (Q := fun c c' _ => c.nameless = c'.nameless) ?_)
    fun _ _ _ ⟨⟨_, hc⟩, _⟩ => hc
  rw [production_draft]
  split
  · exact agree_requiredComponent ho hbelow ‹_›
  · exact agree_optionalComponent ho hbelow
  · exact agree_defaultComponent ho hbelow
  · exact agree_includedComponents hbelow

end Components

/-! ## Modules -/

theorem agree_typeAssignment (h : ∀ u ∈ t.held, u.Agrees o o') :
    Agree o o' t i (fun a a' _ => a.nameless = a'.nameless) typeAssignment typeAssignment := by
  refine agree_bind agree_token ?_
  rintro name _ _ ⟨rfl, -⟩
  refine agree_bind agree_token fun _ _ _ _ => ?_
  refine agree_bind (agree_nextType h) fun a a' _ ha => ?_
  refine agree_bind agree_finish fun _ _ _ _ => ?_
  exact agree_pure (by simpa [Assignment.nameless] using ha)

theorem agree_valueAssignment (h : ∀ u ∈ t.held, u.Agrees o o') :
    Agree o o' t i (fun a a' _ => a.nameless = a'.nameless) valueAssignment valueAssignment := by
  refine agree_bind agree_token ?_
  rintro name _ _ ⟨rfl, -⟩
  refine agree_bind (agree_nextType h) fun a a' _ ha => ?_
  refine agree_bind agree_token fun _ _ _ _ => ?_
  refine agree_bind (agree_value h) ?_
  rintro value _ _ ⟨rfl, -⟩
  refine agree_bind agree_finish fun _ _ _ _ => ?_
  exact agree_pure (by simpa [Assignment.nameless] using ha)

theorem agree_moduleBody :
    Agree o o' t i (fun d d' _ => d = d' ∧ ∃ u ∈ t.held, d = u.draft) moduleBody moduleBody := by
  refine agree_bind (agree_skip 2) fun _ _ _ _ => ?_
  refine agree_bind agree_node ?_
  rintro _ _ _ ⟨rfl, -, u, hu, rfl, -⟩
  refine agree_bind agree_finish fun _ _ _ _ => ?_
  exact agree_pure ⟨rfl, u, mem_held_of_getElem? hu, rfl⟩

theorem agree_module (h : t.AgreesBelow o o') :
    Agree o o' t i (fun m m' _ => m.nameless = m'.nameless) module module := by
  refine agree_bind agree_node ?_
  rintro _ _ _ ⟨rfl, -, reference, hreference, rfl, -⟩
  refine agree_bind (agree_readToken (mem_held_of_getElem? hreference)) ?_
  rintro name _ _ ⟨rfl, -⟩
  refine agree_bind (agree_skip 4) fun _ _ _ _ => ?_
  refine agree_bind agree_node ?_
  rintro _ _ _ ⟨rfl, -, body, hbody, rfl, -⟩
  refine agree_bind (agree_skip 1) fun _ _ _ _ => ?_
  refine agree_bind agree_finish fun _ _ _ _ => ?_
  have hwithin := within_of_mem_held (mem_held_of_getElem? hbody)
  refine agree_bind (agree_read hwithin agree_moduleBody) ?_
  rintro _ _ _ ⟨⟨_, rfl, list, hlist, rfl⟩, -⟩
  have hwithin' := (within_of_mem_held hlist).trans hwithin
  refine agree_bind (agree_read hwithin' (agree_forEachLeft (Nat.zero_le _) fun _ =>
    agree_next .assignment Slot.erases_assignment (h.of_within hwithin').held)) ?_
  rintro as as' _ ⟨⟨_, has, -⟩, -⟩
  exact agree_pure (by simpa [Module.nameless] using has)

/-! ## Nodes -/

/-- Whatever the production, reading a node comes to the same in all runs. -/
theorem agree_rule (ho : o.nameAnonymous = o'.nameAnonymous) (h : t.AgreesBelow o o') :
    Agree o o' t 0 (fun n n' _ => n.nameless = n'.nameless) (rule t.label) (rule t.label) := by
  have hauxiliary (hlabel : t.label ∈ Production.auxiliary) :
      Agree o o' t 0 (fun n n' _ => Node.nameless n = Node.nameless n')
        (throw (.unknownKind t.label.name)) (throw (.unknownKind t.label.name)) :=
    agree_throw ⟨t, .refl, hlabel, rfl⟩
  have htype {r : Reading TypeDecl}
      (hr : Agree o o' t 0 (fun a a' _ => a.nameless = a'.nameless) r r) :
      Agree o o' t 0 (fun n n' _ => Node.nameless n = Node.nameless n') (.type <$> r)
        (.type <$> r) :=
    agree_map hr fun _ _ _ ha => congrArg Node.type ha
  have hequal {α : Type} {f : α → Node} {r : Reading α}
      (hr : Agree o o' t 0 (fun a a' _ => a = a') r r) :
      Agree o o' t 0 (fun n n' _ => Node.nameless n = Node.nameless n') (f <$> r) (f <$> r) :=
    agree_map hr fun _ _ _ ha => congrArg (fun a => (f a).nameless) ha
  cases hlabel : t.label with
  | moduleReference | moduleBody | «exports» | imports | assignmentList | tag | tagClass
  | tagClassNumber | constraint | componentTypeOptional | componentTypeDefault
  | componentTypeComponentsOf | identifier | value =>
    simpa [rule, hlabel, Production.auxiliary] using hauxiliary
  | type =>
    refine agree_bind agree_node ?_
    rintro _ _ _ ⟨rfl, -, u, hu, rfl, -⟩
    have hheld := mem_held_of_getElem? hu
    exact agree_mono (agree_lift (BuildM.Agree.mono (h.held u hheld)
      (fun _ he => he.of_within (within_of_mem_held hheld)) fun _ _ => id)) fun _ _ _ hn => hn.1
  | moduleDefinition => exact agree_map (agree_module h) fun _ _ _ hm => congrArg Node.module hm
  | typeAssignment =>
    exact agree_map (agree_typeAssignment h.held) fun _ _ _ ha => congrArg Node.assignment ha
  | valueAssignment =>
    exact agree_map (agree_valueAssignment h.held) fun _ _ _ ha => congrArg Node.assignment ha
  | sequenceType | setType | choiceType => exact htype (agree_constructed h.held)
  | sequenceOfType | setOfType => exact htype (agree_collection h)
  | taggedType => exact htype (agree_tagged h)
  | simpleType => exact htype (agree_simple h)
  | referencedType | referencedValue => exact hequal agree_qualifiedName
  | valueListType => exact htype (agree_valueList hlabel h.held)
  | bitStringType => exact htype (agree_bitString h.held)
  | sizeConstraint => exact hequal (agree_bounds h.held)
  | componentType =>
    exact agree_map (agree_component ho h) fun _ _ _ hc => congrArg Node.component hc
  | namedType =>
    refine agree_map (agree_namedType ho hlabel h.held) fun m m' _ hm => ?_
    simpa [Node.nameless] using hm
  | namedValue => exact hequal agree_namedValue
  | extensionMarker => exact agree_pure rfl
  | objectIdentifierValue => exact hequal (agree_objectIdentifier h.held)
  | nameForm | numberForm | binaryStringValue | hexStringValue => exact hequal agree_onlyToken
  | nameAndNumberForm => exact hequal agree_nameAndNumber

end Reading

namespace ParseTree

/-- All runs of building a tree agree if those of building the trees in it do. -/
theorem agrees_step (ho : o.nameAnonymous = o'.nameAnonymous) (h : t.AgreesBelow o o') :
    t.Agrees o o' := by
  unfold Agrees
  rw [build_eq_read]
  exact BuildM.Agree.mono (Reading.agree_rule ho h).read (fun _ => id) fun _ _ ⟨_, hn⟩ => hn

/-- All runs of building a tree agree that treat anonymous members alike. -/
theorem agrees (ho : o.nameAnonymous = o'.nameAnonymous) (t : ParseTree) : t.Agrees o o' := by
  induction hsize : sizeOf t using Nat.strongRecOn generalizing t with
  | ind size ih =>
    refine agrees_step ho fun w hw u hu => ih (sizeOf u) ?_ u rfl
    have := sizeOf_lt_of_mem_held hu
    have := hw.sizeOf_le
    omega

theorem agreesBelow (ho : o.nameAnonymous = o'.nameAnonymous) (t : ParseTree) :
    t.AgreesBelow o o' := fun _ _ u _ => u.agrees ho

/-- An error of building a tree, with whatever options and after however many numbers, tells of
something that is wrong in the tree. -/
theorem explains_of_build_eq_error (o : BuildOptions) (t : ParseTree) (drawn drawn' : Nat)
    (e : BuildError) (h : t.build.runFrom o drawn = (.error e, drawn')) : t.Explains o e := by
  obtain ⟨_, _, r, r', hdraws, -, -, houtcome⟩ := t.agrees (o := o) rfl drawn drawn
  obtain ⟨rfl, -⟩ : r = .error e ∧ _ := by simpa using hdraws.runFrom_eq.symm.trans h
  cases houtcome with
  | error he => exact he

/-- A member `a ...` of a SEQUENCE: an extension marker is no type. -/
theorem explains_of_build_eq_error_extensionMarker :
    ParseTree.Explains {}
      (.node .sequenceType [.token "SEQUENCE", .list [.node .componentType [.tree
        (.node .namedType [.tree (.node .identifier [.token "a"]),
          .tree (.node .type [.tree (.node .extensionMarker [])])])]]])
      (.malformed .namedType (.wrongCategory "a type" .extensionMarker)) :=
  explains_of_build_eq_error {} _ 0 0 _ (by rfl)

end ParseTree

theorem agree_buildModule (ho : o.nameAnonymous = o'.nameAnonymous) (t : ParseTree) :
    BuildM.Agree o o' (t.ExplainsModule o) (fun m m' => m.nameless = m'.nameless)
      (buildModule t) (buildModule t) := by
  unfold buildModule
  split
  case isTrue =>
    have hread := (Reading.agree_module (i := 0) (t.agreesBelow ho)).read
    exact hread.mono (fun _ => .inl) fun _ _ ⟨_, hm⟩ => hm
  case isFalse hlabel => exact .throw (.inr ⟨hlabel, rfl⟩)

/-- Building modules comes to the same in all runs that treat anonymous members alike. An error
tells of something wrong in one of the trees. -/
theorem agree_buildForest (ho : o.nameAnonymous = o'.nameAnonymous) (ts : List ParseTree) :
    BuildM.Agree o o' (fun e => ∃ t ∈ ts, t.ExplainsModule o e)
      (fun ms ms' => ms.map Module.nameless = ms'.map Module.nameless)
      (buildForest ts) (buildForest ts) := by
  induction ts with
  | nil => exact .pure rfl
  | cons t ts ih =>
    unfold buildForest
    rw [List.mapM_cons]
    refine .bind ((agree_buildModule ho t).mono (fun e he => ⟨t, List.mem_cons_self, he⟩)
      fun _ _ => id) fun m m' hm => ?_
    refine .bind (ih.mono (fun e ⟨u, hu, he⟩ => ⟨u, List.mem_cons_of_mem t hu, he⟩) fun _ _ => id)
      fun ms ms' hms => ?_
    exact .pure (by simp [hm, hms])

end AsnModel
