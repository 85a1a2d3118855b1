import AsnModel.Proofs.Build.Draws
import AsnModel.Proofs.Build.Yields

/-!
# The steps of a build

Every build is put together from three steps, whatever its parse tree: to return a result, to fail,
and to name an anonymous member. What holds of these steps and passes from the parts of a sequence
to the whole therefore holds of all builds.

## Main definitions

* `BuildM.nameMember` — name an anonymous member, or fail if members are not named.
* `BuildM.Stepwise` — builds that are put together from these steps.
* `Draft.Stepwise` — drafts in which every construction is.
* `Reading.Stepwise` — steps of reading that are, if the drafts that they find are.

A lemma `stepwise_…` says for each step of reading what it finds.
-/

namespace AsnModel

variable {α β : Type}

namespace BuildM

/-- Name an anonymous member, if the options say so. Otherwise the member is at fault. -/
def nameMember : BuildM String := do
  if (← read).nameAnonymous then placeholder
  else throw (.malformed .namedType .unnamedMember)

/-- The build is put together from returning, failing and naming members, and its results
satisfy `Q`. -/
inductive Stepwise : {α : Type} → (α → Prop) → BuildM α → Prop where
  | pure {α : Type} {Q : α → Prop} {a : α} (h : Q a) : Stepwise Q (pure a)
  | throw {α : Type} {Q : α → Prop} (e : BuildError) : Stepwise Q (throw e)
  | name : Stepwise (fun _ => True) nameMember
  | bind {α β : Type} {R : α → Prop} {Q : β → Prop} {x : BuildM α} {f : α → BuildM β}
      (hx : Stepwise R x) (hf : ∀ a, R a → Stepwise Q (f a)) : Stepwise Q (x >>= f)

variable {Q R : α → Prop} {x : BuildM α}

theorem Stepwise.map {S : β → Prop} {f : α → β} (h : x.Stepwise Q) (hf : ∀ a, Q a → S (f a)) :
    (f <$> x).Stepwise S := by
  rw [map_eq_pure_bind]
  exact .bind h fun a ha => .pure (hf a ha)

theorem Stepwise.mono (h : x.Stepwise Q) (hQ : ∀ a, Q a → R a) : x.Stepwise R := by
  simpa using h.map (f := id) hQ

end BuildM

/-- Every construction in the draft is put together from steps. -/
inductive Draft.Stepwise : Draft → Prop where
  | node {p : Production} {x : BuildM Node} {es : List (Element Draft)}
      (hx : x.Stepwise fun _ => True) (hes : ∀ e ∈ es, ∀ d ∈ e.trees, Stepwise d) :
    Stepwise (.node (p, x) es)

theorem Draft.Stepwise.build {d : Draft} (h : d.Stepwise) : d.build.Stepwise fun _ => True := by
  cases h with
  | node hx _ => exact hx

/-- A node of production `p` is being read, and the drafts that are left to read are put together
from steps. -/
structure Cursor.Stepwise (p : Production) (c : Cursor) : Prop where
  production_eq : c.production = p
  drafts : ∀ e ∈ c.rest, ∀ d ∈ e.trees, Draft.Stepwise d

theorem Draft.Stepwise.cursor {d : Draft} (h : d.Stepwise) :
    Cursor.Stepwise d.production ⟨d.production, 0, d.elements⟩ := by
  cases h with
  | node _ hes => exact ⟨rfl, hes⟩

namespace Reading

/-- At whatever draft, a step in reading a node of production `p` is put together from steps, and
its results satisfy `Q`. -/
def Stepwise (p : Production) (Q : α → Prop) (r : Reading α) : Prop :=
  ∀ c : Cursor, c.Stepwise p → BuildM.Stepwise (fun x => x.2.Stepwise p ∧ Q x.1) (r.run c)

variable {p : Production} {Q R : α → Prop} {S : β → Prop} {r : Reading α}

/-! ## Rules -/

theorem stepwise_pure {a : α} (h : Q a) : Stepwise p Q (pure a) := fun _ hc => .pure ⟨hc, h⟩

theorem stepwise_bind {f : α → Reading β} (hr : Stepwise p Q r)
    (hf : ∀ a, Q a → Stepwise p S (f a)) : Stepwise p S (r >>= f) := by
  intro c hc
  rw [StateT.run_bind]
  exact .bind (hr c hc) fun x hx => hf x.1 hx.2 x.2 hx.1

theorem stepwise_map {f : α → β} (h : Stepwise p Q r) (hf : ∀ a, Q a → S (f a)) :
    Stepwise p S (f <$> r) := by
  rw [map_eq_pure_bind]
  exact stepwise_bind h fun a ha => stepwise_pure (hf a ha)

theorem stepwise_mono (h : Stepwise p Q r) (hQ : ∀ a, Q a → R a) : Stepwise p R r := fun c hc =>
  (h c hc).mono fun _ hx => ⟨hx.1, hQ _ hx.2⟩

theorem stepwise_lift {x : BuildM α} (h : x.Stepwise Q) : Stepwise p Q (monadLift x) := by
  intro c hc
  rw [StateT.run_monadLift]
  exact .bind h fun a ha => .pure ⟨hc, ha⟩

theorem stepwise_throw {e : BuildError} : Stepwise p Q (throw e) := by
  intro c _
  change BuildM.Stepwise _ (throw e >>= fun a => pure (a, c))
  exact .bind (R := fun _ => False) (.throw e) nofun

theorem stepwise_fail {d : Defect} : Stepwise p Q (fail d) := by
  intro c _
  rw [run_fail]
  exact .throw _

theorem stepwise_get : Stepwise p (fun c => c.Stepwise p) get := fun _ hc => .pure ⟨hc, hc⟩

/-- All elements of a draft are read from the first one on. -/
theorem stepwise_read {d : Draft} (hd : d.Stepwise) (h : Stepwise d.production Q r) :
    Stepwise p Q (monadLift (d.read r)) :=
  stepwise_lift ((h _ hd.cursor).map fun _ hx => hx.2)

/-! ## Single elements -/

theorem stepwise_take {pick : Element Draft → Option α} {defect : Nat → Defect} :
    Stepwise p (fun a => ∃ e, pick e = some a ∧ ∀ d ∈ e.trees, Draft.Stepwise d)
      (take pick defect) := by
  intro c hc
  rw [run_take]
  obtain ⟨q, i, rest⟩ := c
  cases rest with
  | nil => exact .throw _
  | cons e es =>
    simp only [List.head?_cons, Option.bind_some, List.tail_cons]
    cases ha : pick e with
    | none => exact .throw _
    | some a =>
      obtain ⟨hp, he, hes⟩ : q = p ∧ (∀ d ∈ e.trees, Draft.Stepwise d) ∧ _ :=
        ⟨hc.production_eq, List.forall_mem_cons.1 hc.drafts⟩
      exact .pure ⟨⟨hp, hes⟩, e, ha, he⟩

theorem stepwise_token : Stepwise p (fun _ => True) token :=
  stepwise_mono stepwise_take fun _ _ => trivial

theorem stepwise_list : Stepwise p (fun ds => ∀ d ∈ ds, Draft.Stepwise d) list := by
  refine stepwise_mono stepwise_take ?_
  rintro ds ⟨e, he, hds⟩
  obtain rfl := Element.list?_eq_some_iff.1 he
  exact hds

theorem stepwise_element :
    Stepwise p (fun e => ∀ d ∈ e.trees, Draft.Stepwise d) element := by
  refine stepwise_mono stepwise_take ?_
  rintro e ⟨_, he, hd⟩
  obtain rfl := Option.some.inj he
  exact hd

theorem stepwise_node {expected : List Production} :
    Stepwise p (fun d => d.Stepwise ∧ (expected = [] ∨ d.production ∈ expected))
      (node expected) := by
  refine stepwise_bind stepwise_get fun _ _ => stepwise_bind stepwise_take ?_
  rintro d ⟨e, he, hd⟩
  obtain rfl := Element.tree?_eq_some_iff.1 he
  split
  · rename_i hexpected
    exact stepwise_pure ⟨hd d (by simp), hexpected⟩
  · exact stepwise_fail

theorem stepwise_skip (count : Nat) : Stepwise p (fun _ => True) (skip count) := by
  induction count with
  | zero => exact stepwise_pure trivial
  | succ count ih => exact stepwise_bind stepwise_element fun _ _ => ih

theorem stepwise_finish : Stepwise p (fun _ => True) finish := by
  intro c hc
  rw [run_finish]
  split
  · exact .pure ⟨hc, trivial⟩
  · exact .throw _

/-! ## Optional and repeated elements -/

theorem stepwise_ifNext {q : Element Draft → Bool} (h : Stepwise p (fun _ => True) r) :
    Stepwise p (fun _ => True) (ifNext q r) := by
  refine stepwise_bind stepwise_get fun _ _ => ?_
  split
  · exact stepwise_bind h fun _ _ => stepwise_pure trivial
  · exact stepwise_pure trivial

theorem stepwise_mapM {τ : Type} {f : τ → Reading α} {ts : List τ}
    (h : ∀ t ∈ ts, Stepwise p (fun _ => True) (f t)) : Stepwise p (fun _ => True) (ts.mapM f) := by
  induction ts with
  | nil => exact stepwise_pure trivial
  | cons t ts ih =>
    rw [List.forall_mem_cons] at h
    rw [List.mapM_cons]
    exact stepwise_bind h.1 fun _ _ => stepwise_bind (ih h.2) fun _ _ => stepwise_pure trivial

theorem stepwise_forEachLeft (h : Stepwise p (fun _ => True) r) :
    Stepwise p (fun _ => True) (forEachLeft r) :=
  stepwise_bind stepwise_get fun _ _ => stepwise_mapM fun _ _ => h

/-! ## Nodes in their places -/

theorem stepwise_fit {slot : Slot α} {d : Draft} (hd : d.Stepwise) :
    Stepwise p (fun _ => True) (fit slot d) := by
  refine stepwise_bind (stepwise_lift hd.build) fun n _ => ?_
  cases slot.accept n with
  | some a => exact stepwise_pure trivial
  | none => exact stepwise_fail

theorem stepwise_next {slot : Slot α} : Stepwise p (fun _ => True) (next slot) :=
  stepwise_bind stepwise_node fun _ hd => stepwise_fit hd.1

theorem stepwise_value : Stepwise p (fun _ => True) value := by
  refine stepwise_bind stepwise_get fun _ _ => stepwise_bind stepwise_element fun e he => ?_
  cases e with
  | token text => exact stepwise_pure trivial
  | tree d => exact stepwise_fit (he d (by simp))
  | list ds => exact stepwise_fail

/-! ## Tokens and values -/

theorem stepwise_onlyToken : Stepwise p (fun _ => True) onlyToken :=
  stepwise_bind stepwise_token fun _ _ => stepwise_bind stepwise_finish fun _ _ =>
    stepwise_pure trivial

theorem stepwise_qualifiedName : Stepwise p (fun _ => True) qualifiedName := by
  have hqualifier : Stepwise p (fun _ => True) qualifier :=
    stepwise_ifNext (stepwise_bind stepwise_node fun _ hd => stepwise_read hd.1 stepwise_token)
  exact stepwise_bind hqualifier fun _ _ => stepwise_bind stepwise_onlyToken fun _ _ =>
    stepwise_pure trivial

theorem stepwise_nameAndNumber : Stepwise p (fun _ => True) nameAndNumber := by
  refine stepwise_bind stepwise_node fun name hname => ?_
  refine stepwise_bind (stepwise_read hname.1 stepwise_onlyToken) fun _ _ => ?_
  refine stepwise_bind stepwise_node fun number hnumber => ?_
  refine stepwise_bind (stepwise_read hnumber.1 stepwise_onlyToken) fun _ _ => ?_
  exact stepwise_bind stepwise_finish fun _ _ => stepwise_pure trivial

theorem stepwise_namedValue : Stepwise p (fun _ => True) namedValue := by
  refine stepwise_bind (stepwise_ifNext stepwise_token) fun identifier _ => ?_
  cases identifier with
  | some identifier => exact stepwise_bind stepwise_finish fun _ _ => stepwise_pure trivial
  | none =>
    refine stepwise_bind stepwise_node fun identifier hidentifier => ?_
    refine stepwise_bind (stepwise_read hidentifier.1 stepwise_token) fun _ _ => ?_
    refine stepwise_bind stepwise_node fun number hnumber => ?_
    refine stepwise_bind (stepwise_read hnumber.1 stepwise_onlyToken) fun _ _ => ?_
    exact stepwise_bind stepwise_finish fun _ _ => stepwise_pure trivial

/-! ## Types -/

theorem stepwise_bounds : Stepwise p (fun _ => True) bounds :=
  stepwise_bind stepwise_value fun _ _ => stepwise_bind stepwise_value fun _ _ =>
    stepwise_bind stepwise_finish fun _ _ => stepwise_pure trivial

theorem stepwise_constructed {kind : ConstructedKind} :
    Stepwise p (fun _ => True) (constructed kind) := by
  refine stepwise_bind stepwise_token fun _ _ => stepwise_bind stepwise_list fun ds hds => ?_
  refine stepwise_bind stepwise_finish fun _ _ => ?_
  exact stepwise_bind (stepwise_mapM fun d hd => stepwise_fit (hds d hd)) fun _ _ =>
    stepwise_pure trivial

theorem stepwise_collection {kind : CollectionKind} :
    Stepwise p (fun _ => True) (collection kind) := by
  refine stepwise_bind stepwise_node fun first hfirst => ?_
  split
  · refine stepwise_bind (stepwise_read hfirst.1 stepwise_bounds) fun _ _ => ?_
    refine stepwise_bind stepwise_node fun element helement => ?_
    refine stepwise_bind stepwise_finish fun _ _ => ?_
    exact stepwise_bind (stepwise_fit helement.1) fun _ _ => stepwise_pure trivial
  · refine stepwise_bind stepwise_finish fun _ _ => ?_
    exact stepwise_bind (stepwise_fit hfirst.1) fun _ _ => stepwise_pure trivial

theorem stepwise_typeTag : Stepwise p (fun _ => True) typeTag := by
  refine stepwise_bind (stepwise_forEachLeft ?_) fun parts _ => ?_
  · refine stepwise_bind stepwise_node fun part hpart => ?_
    exact stepwise_bind (stepwise_read hpart.1 stepwise_token) fun _ _ => stepwise_pure trivial
  · dsimp only
    split
    · exact stepwise_pure trivial
    · exact stepwise_bind stepwise_get fun _ _ => stepwise_fail

theorem stepwise_tagged : Stepwise p (fun _ => True) tagged := by
  refine stepwise_bind stepwise_node fun tag htag => ?_
  refine stepwise_bind (stepwise_read htag.1 stepwise_typeTag) fun _ _ => ?_
  refine stepwise_bind (stepwise_ifNext stepwise_token) fun _ _ => ?_
  refine stepwise_bind stepwise_next fun _ _ => ?_
  exact stepwise_bind stepwise_finish fun _ _ => stepwise_pure trivial

theorem stepwise_simple : Stepwise p (fun _ => True) simple := by
  have hrange : Stepwise p (fun _ => True) (do (← node [.constraint]).read bounds) :=
    stepwise_bind stepwise_node fun _ hd => stepwise_read hd.1 stepwise_bounds
  refine stepwise_bind stepwise_token fun _ _ => ?_
  refine stepwise_bind (stepwise_ifNext hrange) fun _ _ => ?_
  exact stepwise_bind stepwise_finish fun _ _ => stepwise_pure trivial

theorem stepwise_listItems : Stepwise p (fun _ => True) listItems :=
  stepwise_ifNext (stepwise_bind stepwise_list fun _ hds =>
    stepwise_mapM fun d hd => stepwise_fit (hds d hd))

theorem stepwise_valueList : Stepwise p (fun _ => True) valueList := by
  refine stepwise_bind stepwise_token fun _ _ => ?_
  refine stepwise_bind stepwise_listItems fun items _ => ?_
  refine stepwise_bind stepwise_finish fun _ _ => ?_
  cases items with
  | none => exact stepwise_pure trivial
  | some items =>
    dsimp only
    cases numberItems items with
    | ok numbered => exact stepwise_pure trivial
    | error defect => exact stepwise_fail

theorem stepwise_bitString : Stepwise p (fun _ => True) bitString :=
  stepwise_bind stepwise_token fun _ _ => stepwise_bind stepwise_listItems fun _ _ =>
    stepwise_bind stepwise_finish fun _ _ => stepwise_pure trivial

/-! ## Members -/

/-- Only a member of a named type can be anonymous. -/
theorem stepwise_namedType : Stepwise .namedType (fun _ => True) namedType := by
  refine stepwise_bind stepwise_node fun first hfirst => ?_
  split
  · have hrest : ∀ identifier : String, Stepwise .namedType (fun _ => True) (do
        finish
        return (identifier, ← fit .typeDecl first)) := fun _ =>
      stepwise_bind stepwise_finish fun _ _ => stepwise_bind (stepwise_fit hfirst.1) fun _ _ =>
        stepwise_pure trivial
    intro c hc
    refine (congrArg (BuildM.Stepwise _) ?_).mpr
      (BuildM.Stepwise.bind .name fun identifier _ => hrest identifier c hc)
    obtain ⟨_, i, rest⟩ := c
    obtain rfl := hc.production_eq
    funext ⟨naming, stem⟩ drawn
    cases naming <;> rfl
  · refine stepwise_bind (stepwise_read hfirst.1 stepwise_token) fun _ _ => ?_
    refine stepwise_bind stepwise_node fun type htype => ?_
    refine stepwise_bind stepwise_finish fun _ _ => ?_
    exact stepwise_bind (stepwise_fit htype.1) fun _ _ => stepwise_pure trivial

theorem stepwise_readNamedType {d : Draft} (hd : d.Stepwise)
    (hproduction : d.production = .namedType) :
    Stepwise p (fun _ => True) (monadLift (d.read namedType)) :=
  stepwise_read hd (hproduction ▸ stepwise_namedType)

theorem stepwise_requiredComponent : Stepwise .namedType (fun _ => True) requiredComponent :=
  stepwise_bind stepwise_namedType fun _ _ => stepwise_pure trivial

theorem stepwise_optionalComponent : Stepwise p (fun _ => True) optionalComponent := by
  refine stepwise_bind stepwise_node fun member hmember => ?_
  have hproduction : member.production = .namedType := by simpa using hmember.2
  refine stepwise_bind (stepwise_readNamedType hmember.1 hproduction) fun _ _ => ?_
  exact stepwise_bind stepwise_finish fun _ _ => stepwise_pure trivial

theorem stepwise_defaultComponent : Stepwise p (fun _ => True) defaultComponent := by
  refine stepwise_bind stepwise_node fun member hmember => ?_
  have hproduction : member.production = .namedType := by simpa using hmember.2
  refine stepwise_bind (stepwise_readNamedType hmember.1 hproduction) fun _ _ => ?_
  refine stepwise_bind stepwise_value fun _ _ => ?_
  exact stepwise_bind stepwise_finish fun _ _ => stepwise_pure trivial

theorem stepwise_includedComponents : Stepwise p (fun _ => True) includedComponents :=
  stepwise_bind stepwise_next fun _ _ => stepwise_bind stepwise_finish fun _ _ =>
    stepwise_pure trivial

theorem stepwise_component : Stepwise p (fun _ => True) component := by
  refine stepwise_bind stepwise_node fun form hform => ?_
  refine stepwise_bind stepwise_finish fun _ _ => ?_
  refine stepwise_read hform.1 ?_
  split
  · rename_i hproduction
    rw [hproduction]
    exact stepwise_requiredComponent
  · exact stepwise_optionalComponent
  · exact stepwise_defaultComponent
  · exact stepwise_includedComponents

/-! ## Modules -/

theorem stepwise_typeAssignment : Stepwise p (fun _ => True) typeAssignment := by
  refine stepwise_bind stepwise_token fun _ _ => stepwise_bind stepwise_token fun _ _ => ?_
  refine stepwise_bind stepwise_next fun _ _ => ?_
  exact stepwise_bind stepwise_finish fun _ _ => stepwise_pure trivial

theorem stepwise_valueAssignment : Stepwise p (fun _ => True) valueAssignment := by
  refine stepwise_bind stepwise_token fun _ _ => stepwise_bind stepwise_next fun _ _ => ?_
  refine stepwise_bind stepwise_token fun _ _ => stepwise_bind stepwise_value fun _ _ => ?_
  exact stepwise_bind stepwise_finish fun _ _ => stepwise_pure trivial

theorem stepwise_moduleBody : Stepwise p Draft.Stepwise moduleBody := by
  refine stepwise_bind (stepwise_skip 2) fun _ _ => ?_
  refine stepwise_bind stepwise_node fun _ hassignments => ?_
  exact stepwise_bind stepwise_finish fun _ _ => stepwise_pure hassignments.1

theorem stepwise_module : Stepwise p (fun _ => True) module := by
  refine stepwise_bind stepwise_node fun reference hreference => ?_
  refine stepwise_bind (stepwise_read hreference.1 stepwise_token) fun _ _ => ?_
  refine stepwise_bind (stepwise_skip 4) fun _ _ => ?_
  refine stepwise_bind stepwise_node fun body hbody => ?_
  refine stepwise_bind (stepwise_skip 1) fun _ _ => stepwise_bind stepwise_finish fun _ _ => ?_
  refine stepwise_bind (stepwise_read hbody.1 stepwise_moduleBody) fun list hlist => ?_
  exact stepwise_bind (stepwise_read hlist (stepwise_forEachLeft stepwise_next))
    fun _ _ => stepwise_pure trivial

/-! ## Nodes -/

/-- Whatever the production, reading a node is put together from steps. -/
theorem stepwise_rule (p : Production) : Stepwise p (fun _ => True) (rule p) := by
  have hmap {α : Type} {f : α → Node} {r : Reading α} (hr : Stepwise p (fun _ => True) r) :
      Stepwise p (fun _ => True) (f <$> r) :=
    stepwise_map hr fun _ _ => trivial
  cases p with
  | type => exact stepwise_bind stepwise_node fun _ hd => stepwise_lift hd.1.build
  | moduleDefinition => exact hmap stepwise_module
  | typeAssignment => exact hmap stepwise_typeAssignment
  | valueAssignment => exact hmap stepwise_valueAssignment
  | sequenceType | setType | choiceType => exact hmap stepwise_constructed
  | sequenceOfType | setOfType => exact hmap stepwise_collection
  | taggedType => exact hmap stepwise_tagged
  | simpleType => exact hmap stepwise_simple
  | referencedType | referencedValue => exact hmap stepwise_qualifiedName
  | valueListType => exact hmap stepwise_valueList
  | bitStringType => exact hmap stepwise_bitString
  | sizeConstraint => exact hmap stepwise_bounds
  | componentType => exact hmap stepwise_component
  | namedType => exact hmap stepwise_namedType
  | namedValue => exact hmap stepwise_namedValue
  | extensionMarker => exact stepwise_pure trivial
  | objectIdentifierValue => exact hmap (stepwise_forEachLeft stepwise_next)
  | nameForm | numberForm | binaryStringValue | hexStringValue => exact hmap stepwise_onlyToken
  | nameAndNumberForm => exact hmap stepwise_nameAndNumber
  | _ => exact stepwise_throw

end Reading

/-! ## Trees -/

theorem stepwise_construct {p : Production} {es : List (Element Draft)}
    (hes : ∀ e ∈ es, ∀ d ∈ e.trees, Draft.Stepwise d) :
    (construct p es).Stepwise fun _ => True :=
  (Reading.stepwise_rule p ⟨p, 0, es⟩ ⟨rfl, hes⟩).map fun _ _ => trivial

namespace ParseTree

theorem trees_map_draft (e : Element ParseTree) :
    (e.map draft).trees = e.trees.map draft := by
  cases e <;> rfl

theorem stepwise_draft (t : ParseTree) : t.draft.Stepwise := by
  induction hsize : sizeOf t using Nat.strongRecOn generalizing t with
  | ind size ih =>
    obtain ⟨p, es⟩ := t
    have hes : ∀ e ∈ es.map (Element.map draft), ∀ d ∈ e.trees, Draft.Stepwise d := by
      intro _ hmem _ hd
      obtain ⟨e, he, rfl⟩ := List.mem_map.1 hmem
      rw [trees_map_draft] at hd
      obtain ⟨u, hu, rfl⟩ := List.mem_map.1 hd
      have hheld : u ∈ held (.node p es) := List.mem_flatMap.2 ⟨e, he, hu⟩
      exact ih (sizeOf u) (hsize ▸ sizeOf_lt_of_mem_held hheld) u rfl
    rw [draft, Tree.annotate_node]
    exact .node (stepwise_construct hes) hes

theorem stepwise_build (t : ParseTree) : t.build.Stepwise fun _ => True := t.stepwise_draft.build

end ParseTree

theorem stepwise_buildModule (t : ParseTree) : (buildModule t).Stepwise fun _ => True := by
  unfold buildModule
  split
  · exact (Reading.stepwise_module _ t.stepwise_draft.cursor).map fun _ _ => trivial
  · exact .throw _

theorem stepwise_buildForest (ts : List ParseTree) :
    (buildForest ts).Stepwise fun _ => True := by
  unfold buildForest
  induction ts with
  | nil => exact .pure trivial
  | cons t ts ih =>
    rw [List.mapM_cons]
    exact .bind (stepwise_buildModule t) fun _ _ => .bind ih fun _ _ => .pure trivial

end AsnModel
