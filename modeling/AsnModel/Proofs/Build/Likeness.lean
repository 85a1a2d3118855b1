import AsnModel.Proofs.Build.Roles

/-!
# Reading trees that are alike

Whatever the production, two nodes whose elements are alike are built alike.
-/

namespace AsnModel

namespace Reading

variable {α : Type} {p : Production} {i : Nat} {d d' : Draft}

/-! ## Tokens and values -/

theorem any_token?_eq {a a' : Option (Element Draft)}
    (h : a'.bind Element.token? = a.bind Element.token?) :
    a'.any (fun e => e.token?.isSome) = a.any fun e => e.token?.isSome := by
  cases a <;> cases a' <;> simp_all

theorem any_production?_eq {a a' : Option (Element Draft)} (q : Production)
    (h : a'.bind Element.production? = a.bind Element.production?) :
    (a'.any fun e => e.production? = some q) = a.any fun e => e.production? = some q := by
  cases a <;> cases a' <;> grind

theorem coincide_readToken (hd : d.Alike d') (hp : d.production.role 0 = .part) :
    Coincide p i (fun text text' j => text = text' ∧ j = i) (monadLift (d.read token))
      (monadLift (d'.read token)) :=
  coincide_mono (coincide_read hd rfl (coincide_token (by simp [hp]) (by simp [hp])))
    fun _ _ _ ⟨⟨_, htext, _⟩, hj⟩ => ⟨htext, hj⟩

theorem coincide_onlyToken (hi : p.role i = .part) (hnext : p.role (i + 1) = .part) :
    Coincide p i (fun text text' _ => text = text') onlyToken onlyToken := by
  refine coincide_bind_eq (coincide_token (by simp [hi]) (by simp [hi])) fun text => ?_
  refine coincide_bind (coincide_finish (by simp [hnext])) fun _ _ _ _ => ?_
  exact coincide_pure rfl

theorem coincide_readOnlyToken (hd : d.Alike d') (hp : ∀ j, d.production.role j = .part) :
    Coincide p i (fun text text' j => text = text' ∧ j = i) (monadLift (d.read onlyToken))
      (monadLift (d'.read onlyToken)) :=
  coincide_mono (coincide_read hd rfl (coincide_onlyToken (hp 0) (hp 1)))
    fun _ _ _ ⟨⟨_, htext⟩, hj⟩ => ⟨htext, hj⟩

theorem coincide_qualifier (hp : ∀ j, p.role j = .part) :
    Coincide p i (fun q q' _ => q = q') qualifier qualifier := by
  refine coincide_mono (coincide_ifNext (Q := fun a a' _ => a = a') (fun a a' ha => ?_) ?_) ?_
  · rw [hp i] at ha
    exact any_production?_eq _ ha.production?_eq
  · refine coincide_bind (coincide_part (hp i)) ?_
    rintro d d' _ ⟨hd, rfl, hproduction⟩
    obtain hproduction : d.production = .moduleReference := by simpa using hproduction
    exact coincide_mono (coincide_readToken hd (by rw [hproduction]; rfl)) fun _ _ _ ⟨h, _⟩ => h
  · rintro _ _ _ (⟨q, _, rfl, rfl, rfl⟩ | ⟨rfl, rfl, -⟩) <;> rfl

theorem coincide_qualifiedName (hp : ∀ j, p.role j = .part) :
    Coincide p i (fun n n' _ => n = n') qualifiedName qualifiedName := by
  refine coincide_bind (coincide_qualifier hp) ?_
  rintro q _ j rfl
  refine coincide_bind (coincide_onlyToken (hp j) (hp (j + 1))) ?_
  rintro name _ _ rfl
  exact coincide_pure rfl

theorem coincide_objectIdentifier : Coincide .objectIdentifierValue 0 (fun cs cs' _ => cs = cs')
    objectIdentifier objectIdentifier :=
  coincide_forEachLeft (fun _ => by simp [Production.role]) fun _ => coincide_next rfl

theorem coincide_nameAndNumber : Coincide .nameAndNumberForm 0 (fun a a' _ => a = a')
    nameAndNumber nameAndNumber := by
  refine coincide_bind (coincide_part rfl) ?_
  rintro d d' _ ⟨hd, rfl, hname⟩
  obtain hname : d.production = .nameForm := by simpa using hname
  refine coincide_bind_eq (coincide_readOnlyToken hd fun _ => by rw [hname]; rfl) fun name => ?_
  refine coincide_bind (coincide_part rfl) ?_
  rintro e e' _ ⟨he, rfl, hnumber⟩
  obtain hnumber : e.production = .numberForm := by simpa using hnumber
  refine coincide_bind_eq (coincide_readOnlyToken he fun _ => by rw [hnumber]; rfl) fun number => ?_
  refine coincide_bind (coincide_finish (by decide)) fun _ _ _ _ => ?_
  exact coincide_pure rfl

theorem run_onlyToken_eq {es es' : List (Element Draft)}
    (h : es'.map Element.token? = es.map Element.token?) :
    onlyToken.run ⟨p, i, es'⟩ = onlyToken.run ⟨p, i, es⟩ := by
  cases es with
  | nil =>
    obtain rfl : es' = [] := by simpa using h
    rfl
  | cons e es =>
    obtain _ | ⟨e', es'⟩ := es'
    · simp at h
    · obtain ⟨he, hes⟩ := List.cons.inj h
      have hnil : es' = [] ↔ es = [] := by
        rw [← List.map_eq_nil_iff (f := Element.token?), hes, List.map_eq_nil_iff]
      simp only [onlyToken, token, StateT.run_bind, run_take, List.head?_cons, Option.bind_some, he]
      cases e.token? with
      | none => rfl
      | some text =>
        simp only [pure_bind, run_finish, List.tail_cons, hnil]
        split <;> simp_all

/-- A tree of which every element is looked at is read by its tokens alone. -/
theorem read_onlyToken_eq (h : Role.number.Like (some (.tree d)) (some (.tree d'))) :
    d'.read onlyToken = d.read onlyToken := by
  cases h with
  | built hr => simp at hr
  | part _ _ hnumber => contradiction
  | number hp h =>
    rw [Draft.read, Draft.read, of, of, StateT.run'_eq, StateT.run'_eq, hp, run_onlyToken_eq h]

theorem coincide_namedValue : Coincide .namedValue 0 (fun v v' _ => v = v') namedValue
    namedValue := by
  have htoken := coincide_token (p := .namedValue) (i := 0) (by decide) (by decide)
  refine coincide_bind (coincide_ifNext
    (fun a a' ha => any_token?_eq (ha.token?_eq (by decide) (by decide))) htoken) ?_
  rintro _ _ _ (⟨identifier, _, rfl, rfl, rfl, rfl⟩ | ⟨rfl, rfl, rfl⟩)
  · refine coincide_bind (coincide_finish (by decide)) fun _ _ _ _ => ?_
    exact coincide_pure rfl
  · refine coincide_bind (coincide_part rfl) ?_
    rintro d d' _ ⟨hd, rfl, hidentifier⟩
    obtain hidentifier : d.production = .identifier := by simpa using hidentifier
    refine coincide_bind_eq (coincide_readToken hd (by rw [hidentifier]; rfl)) fun identifier => ?_
    refine coincide_bind (coincide_node (by decide) (by decide) (.inl rfl)) ?_
    rintro e e' _ ⟨he, rfl, -⟩
    rw [read_onlyToken_eq he]
    refine coincide_bind_eq (coincide_lift (.refl _)) fun number => ?_
    refine coincide_bind (coincide_finish (by decide)) fun _ _ _ _ => ?_
    exact coincide_pure rfl

/-! ## Types -/

theorem coincide_bounds (hp : p = .constraint ∨ p = .sizeConstraint) :
    Coincide p 0 (fun b b' _ => b = b') bounds bounds := by
  have hrole : p.role 0 = .slot ∧ p.role 1 = .slot ∧ p.role 2 = .part := by
    rcases hp with rfl | rfl <;> decide
  refine coincide_bind_eq (coincide_value hrole.1) fun min => ?_
  refine coincide_bind_eq (coincide_value hrole.2.1) fun max => ?_
  refine coincide_bind (coincide_finish (by simp [hrole.2.2])) fun _ _ _ _ => ?_
  exact coincide_pure rfl

theorem coincide_readBounds (hd : d.Alike d')
    (hp : d.production = .constraint ∨ d.production = .sizeConstraint) :
    Coincide p i (fun b b' j => b = b' ∧ j = i) (monadLift (d.read bounds))
      (monadLift (d'.read bounds)) :=
  coincide_mono (coincide_read hd rfl (coincide_bounds hp)) fun _ _ _ ⟨⟨_, hb⟩, hj⟩ => ⟨hb, hj⟩

theorem coincide_constructed {kind : ConstructedKind} (hp : p = kind.production) :
    Coincide p 0 (fun a a' _ => a = a') (constructed kind) (constructed kind) := by
  have hrole : p.role 0 = .part ∧ p.role 1 = .slots ∧ p.role 2 = .part := by
    subst hp
    cases kind <;> decide
  refine coincide_bind_eq (coincide_token (by simp [hrole.1]) (by simp [hrole.1])) fun keyword => ?_
  refine coincide_bind (coincide_list hrole.2.1) ?_
  rintro ds ds' _ ⟨hds, rfl⟩
  refine coincide_bind (coincide_finish (by simp [hrole.2.2])) fun _ _ _ _ => ?_
  refine coincide_bind_eq (coincide_mapM_fit hds) fun members => ?_
  exact coincide_pure rfl

theorem coincide_collection {kind : CollectionKind} (hp : p = kind.production) :
    Coincide p 0 (fun a a' _ => a = a') (collection kind) (collection kind) := by
  have hrole : p.role 0 = .typeSlot ∧ p.role 1 = .typeSlot ∧ p.role 2 = .part := by
    subst hp
    cases kind <;> decide
  refine coincide_bind (coincide_node (by simp [hrole.1]) (by simp [hrole.1])
    (.inr (.inr hrole.1))) ?_
  rintro first first' _ ⟨hfirst, rfl, hproduction⟩
  rw [hrole.1] at hfirst
  rw [hfirst.production_eq (.inr (.inl rfl))]
  split
  case isTrue hsize =>
    have halike := hfirst.alike (.inr ⟨rfl, by simp [hsize]⟩)
    refine coincide_bind_eq (coincide_readBounds halike (.inr hsize)) fun size => ?_
    refine coincide_bind (coincide_node (by simp [hrole.2.1]) (by simp [hrole.2.1])
      (.inr (.inr hrole.2.1))) ?_
    rintro element element' _ ⟨helement, rfl, htype⟩
    rw [hrole.2.1] at helement
    refine coincide_bind (coincide_finish (by simp [hrole.2.2])) fun _ _ _ _ => ?_
    refine coincide_bind
      (coincide_fit (helement.interchangeable_of_type (by simpa using htype))) ?_
    rintro type _ _ ⟨rfl, -⟩
    exact coincide_pure rfl
  case isFalse hsize =>
    have htype : first.production = .type := by simpa [hsize] using hproduction
    refine coincide_bind (coincide_finish (by simp [hrole.2.1])) fun _ _ _ _ => ?_
    refine coincide_bind_eq (coincide_fit (hfirst.interchangeable_of_type htype)) fun type => ?_
    exact coincide_pure rfl

theorem coincide_typeTag : Coincide .tag 0 (fun tag tag' _ => tag = tag') typeTag typeTag := by
  have hpart : ∀ j, Production.tag.role j = .part := fun _ => rfl
  refine coincide_bind (coincide_forEachLeft (fun j => by simp [hpart]) fun j => ?_) ?_
  · refine coincide_bind (coincide_part (hpart j)) ?_
    rintro d d' _ ⟨hd, rfl, hproduction⟩
    have htoken : d.production.role 0 = .part := by
      rcases (by simpa using hproduction : _ ∨ _) with h | h <;> rw [h] <;> rfl
    rw [hd.production]
    refine coincide_bind_eq (coincide_readToken hd htoken) fun text => ?_
    exact coincide_pure ⟨rfl, rfl⟩
  · rintro parts _ j rfl
    dsimp only
    split
    · exact coincide_pure rfl
    · refine coincide_bind coincide_get ?_
      rintro c c' _ ⟨hc, hc', rfl⟩
      rw [hc, hc']
      exact coincide_fail

theorem coincide_tagged :
    Coincide .taggedType 0 (fun a a' _ => a = a') tagged tagged := by
  refine coincide_bind (coincide_part rfl) ?_
  rintro d d' _ ⟨hd, rfl, htag⟩
  refine coincide_bind (coincide_read hd (by simpa using htag) coincide_typeTag) ?_
  rintro tag _ _ ⟨⟨-, rfl⟩, rfl⟩
  refine coincide_bind (coincide_ifNext
    (fun a a' ha => any_token?_eq (ha.token?_eq (by decide) (by decide)))
    (coincide_token (by decide) (by decide))) fun keyword keyword' j hkeyword => ?_
  obtain ⟨rfl, hj⟩ : keyword = keyword' ∧ (j = 1 ∨ j = 2) := by
    rcases hkeyword with ⟨_, _, rfl, rfl, rfl, rfl⟩ | ⟨rfl, rfl, rfl⟩ <;> simp
  have hrole : Production.taggedType.role j = .slot ∧
      Production.taggedType.role (j + 1) ≠ .rest := by
    rcases hj with rfl | rfl <;> decide
  refine coincide_bind_eq (coincide_next hrole.1) fun type => ?_
  refine coincide_bind (coincide_finish hrole.2) fun _ _ _ _ => ?_
  exact coincide_pure rfl

theorem coincide_simple : Coincide .simpleType 0 (fun a a' _ => a = a') simple simple := by
  have hpart : ∀ j, Production.simpleType.role j = .part := fun _ => rfl
  refine coincide_bind_eq (coincide_token (by decide) (by decide)) fun name => ?_
  refine coincide_bind (coincide_ifNext (Q := fun b b' _ => b = b') (fun a a' ha => ?_) ?_)
    fun range range' j hrange => ?_
  · rw [hpart] at ha
    exact any_production?_eq _ ha.production?_eq
  · refine coincide_bind (coincide_part (hpart _)) ?_
    rintro d d' _ ⟨hd, rfl, hconstraint⟩
    exact coincide_mono (coincide_readBounds hd (.inl (by simpa using hconstraint)))
      fun _ _ _ ⟨hb, _⟩ => hb
  · obtain rfl : range = range' := by
      rcases hrange with ⟨_, _, rfl, rfl, rfl⟩ | ⟨rfl, rfl, -⟩ <;> rfl
    refine coincide_bind (coincide_finish (by simp [hpart])) fun _ _ _ _ => ?_
    exact coincide_pure rfl

/-! ## Lists of named values -/

theorem coincide_listItems (hi : p.role i = .slots) :
    Coincide p i (fun items items' j => items = items' ∧ (j = i ∨ j = i + 1)) listItems
      listItems := by
  refine coincide_mono (coincide_ifNext (Q := fun is is' j => is = is' ∧ j = i + 1)
    (fun a a' ha => ?_) ?_) ?_
  · have hsome := ha.isSome_eq (by simp [hi])
    cases a <;> cases a' <;> simp_all
  · refine coincide_bind (coincide_list hi) ?_
    rintro ds ds' _ ⟨hds, rfl⟩
    exact coincide_mapM_fit hds
  · rintro _ _ _ (⟨is, _, rfl, rfl, rfl, rfl⟩ | ⟨rfl, rfl, rfl⟩) <;> simp

theorem coincide_valueList :
    Coincide .valueListType 0 (fun a a' _ => a = a') valueList valueList := by
  refine coincide_bind_eq (coincide_token (by decide) (by decide)) fun name => ?_
  refine coincide_bind (coincide_listItems rfl) ?_
  rintro items _ j ⟨rfl, hj⟩
  have hrest : Production.valueListType.role j ≠ .rest := by
    rcases hj with rfl | rfl <;> decide
  refine coincide_bind (coincide_finish hrest) fun _ _ _ _ => ?_
  cases items with
  | none => exact coincide_pure rfl
  | some items =>
    dsimp only
    cases numberItems items with
    | ok numbered => exact coincide_pure rfl
    | error defect => exact coincide_fail

theorem coincide_bitString :
    Coincide .bitStringType 0 (fun a a' _ => a = a') bitString bitString := by
  refine coincide_bind_eq (coincide_token (by decide) (by decide)) fun name => ?_
  refine coincide_bind (coincide_listItems rfl) ?_
  rintro items _ j ⟨rfl, hj⟩
  have hrest : Production.bitStringType.role j ≠ .rest := by
    rcases hj with rfl | rfl <;> decide
  refine coincide_bind (coincide_finish hrest) fun _ _ _ _ => ?_
  exact coincide_pure rfl

/-! ## Members -/

theorem coincide_options : Coincide p i (fun a a' j => a = a' ∧ j = i) read read := by
  intro es es' hes
  change BuildM.Coincide _ (read >>= fun a => pure (a, _)) (read >>= fun a => pure (a, _))
  refine .bind (.refl _) ?_
  rintro a _ rfl
  exact .pure ⟨i, es, es', rfl, rfl, hes, rfl, rfl⟩

theorem coincide_namedType :
    Coincide .namedType 0 (fun m m' _ => m = m') namedType namedType := by
  refine coincide_bind (coincide_node (by decide) (by decide) (.inr (.inr rfl))) ?_
  rintro first first' _ ⟨hfirst, rfl, hproduction⟩
  rw [hfirst.production_eq (.inr (.inl rfl))]
  split
  case isTrue htype =>
    refine coincide_bind coincide_options ?_
    rintro o _ _ ⟨rfl, rfl⟩
    cases o.nameAnonymous with
    | false => exact coincide_bind (P := fun _ _ _ => False) coincide_fail nofun
    | true =>
      refine coincide_bind_eq (coincide_lift (.refl _)) fun identifier => ?_
      refine coincide_bind (coincide_finish (by decide)) fun _ _ _ _ => ?_
      refine coincide_bind_eq (coincide_fit (hfirst.interchangeable_of_type htype)) fun type => ?_
      exact coincide_pure rfl
  case isFalse htype =>
    have hidentifier : first.production = .identifier := by simpa [htype] using hproduction
    have halike := hfirst.alike (.inr ⟨rfl, htype⟩)
    have htoken : first.production.role 0 = .part := by
      rw [hidentifier]
      rfl
    refine coincide_bind_eq (coincide_readToken halike htoken) fun identifier => ?_
    refine coincide_bind (coincide_node (by decide) (by decide) (.inl rfl)) ?_
    rintro d d' _ ⟨hd, rfl, -⟩
    refine coincide_bind (coincide_finish (by decide)) fun _ _ _ _ => ?_
    refine coincide_bind_eq (coincide_fit hd.interchangeable) fun type => ?_
    exact coincide_pure rfl

theorem coincide_readNamedType (hd : d.Alike d') (hp : d.production = .namedType) :
    Coincide p i (fun m m' j => m = m' ∧ j = i) (monadLift (d.read namedType))
      (monadLift (d'.read namedType)) :=
  coincide_mono (coincide_read hd hp coincide_namedType) fun _ _ _ ⟨⟨_, hm⟩, hj⟩ => ⟨hm, hj⟩

theorem coincide_requiredComponent :
    Coincide .namedType 0 (fun c c' _ => c = c') requiredComponent requiredComponent := by
  refine coincide_bind coincide_namedType ?_
  rintro m _ _ rfl
  exact coincide_pure rfl

theorem coincide_optionalComponent :
    Coincide .componentTypeOptional 0 (fun c c' _ => c = c') optionalComponent
      optionalComponent := by
  refine coincide_bind (coincide_part rfl) ?_
  rintro d d' _ ⟨hd, rfl, hmember⟩
  refine coincide_bind_eq (coincide_readNamedType hd (by simpa using hmember)) fun m => ?_
  refine coincide_bind (coincide_finish (by decide)) fun _ _ _ _ => ?_
  exact coincide_pure rfl

theorem coincide_defaultComponent :
    Coincide .componentTypeDefault 0 (fun c c' _ => c = c') defaultComponent
      defaultComponent := by
  refine coincide_bind (coincide_part rfl) ?_
  rintro d d' _ ⟨hd, rfl, hmember⟩
  refine coincide_bind_eq (coincide_readNamedType hd (by simpa using hmember)) fun m => ?_
  refine coincide_bind_eq (coincide_value rfl) fun default => ?_
  refine coincide_bind (coincide_finish (by decide)) fun _ _ _ _ => ?_
  exact coincide_pure rfl

theorem coincide_includedComponents :
    Coincide .componentTypeComponentsOf 0 (fun c c' _ => c = c') includedComponents
      includedComponents := by
  refine coincide_bind_eq (coincide_next rfl) fun type => ?_
  refine coincide_bind (coincide_finish (by decide)) fun _ _ _ _ => ?_
  exact coincide_pure rfl

theorem coincide_component :
    Coincide .componentType 0 (fun c c' _ => c = c') component component := by
  refine coincide_bind (coincide_part rfl) ?_
  rintro form form' _ ⟨hform, rfl, hproduction⟩
  refine coincide_bind (coincide_finish (by decide)) fun _ _ _ _ => ?_
  rw [hform.production]
  have hproduction : form.production = .namedType ∨ form.production = .componentTypeOptional ∨
      form.production = .componentTypeDefault ∨
      form.production = .componentTypeComponentsOf := by simpa using hproduction
  rcases hproduction with hp | hp | hp | hp <;> rw [hp]
  · exact coincide_mono (coincide_read hform hp coincide_requiredComponent)
      fun _ _ _ ⟨⟨_, hc⟩, _⟩ => hc
  · exact coincide_mono (coincide_read hform hp coincide_optionalComponent)
      fun _ _ _ ⟨⟨_, hc⟩, _⟩ => hc
  · exact coincide_mono (coincide_read hform hp coincide_defaultComponent)
      fun _ _ _ ⟨⟨_, hc⟩, _⟩ => hc
  · exact coincide_mono (coincide_read hform hp coincide_includedComponents)
      fun _ _ _ ⟨⟨_, hc⟩, _⟩ => hc

/-! ## Modules -/

theorem coincide_typeAssignment :
    Coincide .typeAssignment 0 (fun a a' _ => a = a') typeAssignment typeAssignment := by
  refine coincide_bind_eq (coincide_token (by decide) (by decide)) fun name => ?_
  refine coincide_bind (coincide_token (by decide) (by decide)) ?_
  rintro _ _ _ ⟨-, rfl⟩
  refine coincide_bind_eq (coincide_next rfl) fun type => ?_
  refine coincide_bind (coincide_finish (by decide)) fun _ _ _ _ => ?_
  exact coincide_pure rfl

theorem coincide_valueAssignment :
    Coincide .valueAssignment 0 (fun a a' _ => a = a') valueAssignment valueAssignment := by
  refine coincide_bind_eq (coincide_token (by decide) (by decide)) fun name => ?_
  refine coincide_bind_eq (coincide_next rfl) fun type => ?_
  refine coincide_bind (coincide_token (by decide) (by decide)) ?_
  rintro _ _ _ ⟨-, rfl⟩
  refine coincide_bind_eq (coincide_value rfl) fun value => ?_
  refine coincide_bind (coincide_finish (by decide)) fun _ _ _ _ => ?_
  exact coincide_pure rfl

theorem coincide_moduleBody :
    Coincide .moduleBody 0 (fun d d' _ => d.Alike d' ∧ d.production = .assignmentList) moduleBody
      moduleBody := by
  refine coincide_bind (coincide_skip 2 (by decide)) ?_
  rintro _ _ _ rfl
  refine coincide_bind (coincide_part rfl) ?_
  rintro d d' _ ⟨hd, rfl, hlist⟩
  refine coincide_bind (coincide_finish (by decide)) fun _ _ _ _ => ?_
  exact coincide_pure ⟨hd, by simpa using hlist⟩

theorem coincide_module :
    Coincide .moduleDefinition 0 (fun m m' _ => m = m') module module := by
  refine coincide_bind (coincide_part rfl) ?_
  rintro reference reference' _ ⟨hreference, rfl, hproduction⟩
  obtain hproduction : reference.production = .moduleReference := by simpa using hproduction
  refine coincide_bind_eq (coincide_readToken hreference (by rw [hproduction]; rfl)) fun name => ?_
  refine coincide_bind (coincide_skip 4 (by decide)) ?_
  rintro _ _ _ rfl
  refine coincide_bind (coincide_part rfl) ?_
  rintro body body' _ ⟨hbody, rfl, hbodyProduction⟩
  refine coincide_bind (coincide_skip 1 (by decide)) ?_
  rintro _ _ _ rfl
  refine coincide_bind (coincide_finish (by decide)) fun _ _ _ _ => ?_
  refine coincide_bind (coincide_read hbody (by simpa using hbodyProduction)
    coincide_moduleBody) ?_
  rintro list list' _ ⟨⟨-, hlist, hlistProduction⟩, -⟩
  refine coincide_bind (coincide_read hlist hlistProduction
    (coincide_forEachLeft (fun _ => by simp [Production.role]) fun _ => coincide_next rfl)) ?_
  rintro assignments _ _ ⟨⟨-, rfl⟩, -⟩
  exact coincide_pure rfl

/-! ## Nodes -/

/-- Whatever the production, nodes whose elements are alike are read alike. -/
theorem coincide_rule (p : Production) :
    Coincide p 0 (fun n n' _ => n = n') (rule p) (rule p) := by
  have hmap {α : Type} {f : α → Node} {r : Reading α}
      (hr : Coincide p 0 (fun a a' _ => a = a') r r) :
      Coincide p 0 (fun n n' _ => n = n') (f <$> r) (f <$> r) :=
    coincide_map hr fun _ _ _ ha => congrArg f ha
  cases p with
  | moduleReference | moduleBody | «exports» | imports | assignmentList | tag | tagClass
  | tagClassNumber | constraint | componentTypeOptional | componentTypeDefault
  | componentTypeComponentsOf | identifier | value => exact coincide_throw
  | type =>
    refine coincide_bind (coincide_node (by decide) (by decide) (.inl rfl)) ?_
    rintro d d' _ ⟨hd, rfl, -⟩
    rw [hd.interchangeable.build]
    exact coincide_mono (coincide_lift (.refl _)) fun _ _ _ ⟨hn, _⟩ => hn
  | moduleDefinition => exact hmap coincide_module
  | typeAssignment => exact hmap coincide_typeAssignment
  | valueAssignment => exact hmap coincide_valueAssignment
  | sequenceType | setType | choiceType => exact hmap (coincide_constructed rfl)
  | sequenceOfType | setOfType => exact hmap (coincide_collection rfl)
  | taggedType => exact hmap coincide_tagged
  | simpleType => exact hmap coincide_simple
  | referencedType | referencedValue => exact hmap (coincide_qualifiedName fun _ => rfl)
  | valueListType => exact hmap coincide_valueList
  | bitStringType => exact hmap coincide_bitString
  | sizeConstraint => exact hmap (coincide_bounds (.inr rfl))
  | componentType => exact hmap coincide_component
  | namedType => exact hmap coincide_namedType
  | namedValue => exact hmap coincide_namedValue
  | extensionMarker => exact coincide_pure rfl
  | objectIdentifierValue => exact hmap coincide_objectIdentifier
  | nameForm | numberForm | binaryStringValue | hexStringValue =>
    exact hmap (coincide_onlyToken rfl rfl)
  | nameAndNumberForm => exact hmap coincide_nameAndNumber

end Reading

/-! ## Building -/

section Building

variable {p : Production} {es es' : List (Element Draft)}

theorem read_eq_of_likeFrom {α : Type} {r : Reading α} (h : LikeFrom p 0 es es')
    (hr : Reading.Coincide p 0 (fun a a' _ => a = a') r r) : r.of p es' = r.of p es := by
  apply BuildM.Coincide.eq
  rw [Reading.of, Reading.of, StateT.run'_eq, StateT.run'_eq, map_eq_pure_bind, map_eq_pure_bind]
  refine .bind (hr es es' h) ?_
  rintro x x' ⟨-, -, -, -, -, -, ha⟩
  exact .pure ha

/-- Nodes whose elements are alike are built alike. -/
theorem construct_eq_of_likeFrom (h : LikeFrom p 0 es es') : construct p es' = construct p es :=
  read_eq_of_likeFrom h (Reading.coincide_rule p)

end Building

end AsnModel
