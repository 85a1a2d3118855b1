import AsnModel.Proofs.Build.Draws
import AsnModel.Proofs.Build.Yields

/-!
# What is read of a tree

The elements of a tree play different roles when it is built. Some are only built, so that another
tree which is built alike may stand in their place, and some are not looked at. Trees whose elements
are alike in these roles are read alike.

## Main definitions

* `Role`, `Production.role` — what becomes of the elements of a tree.
* `Draft.Interchangeable` — drafts that come to the same wherever one of them is built.
* `Role.Like` — drafts that come to the same in a place of the given role.
* `BuildM.Coincide` — two builds come to the same.
* `Reading.Coincide` — two steps of reading do, on elements that are alike.

A lemma `coincide_…` says for each step of reading what it makes of elements that are alike.
-/

namespace AsnModel

/-! ## Roles -/

/-- What becomes of an element of a tree. -/
inductive Role where
  /-- It is read as a part of the tree. -/
  | part
  /-- If it is a tree, it is built, whatever its production. -/
  | slot
  /-- If it is a list, its trees are. -/
  | slots
  /-- If it is a type, it is built, and otherwise it is read as a part of the tree. -/
  | typeSlot
  /-- If it is a tree, its elements have to be a token and nothing else. -/
  | number
  /-- It has to be there. -/
  | ignored
  /-- Nothing depends on it. -/
  | rest
deriving DecidableEq

/-- The role of the trees in a list of the given role. -/
def Role.item : Role → Role
  | .slots => .slot
  | _ => .part

/-- The role of the element of the given index in a node. -/
def Production.role : Production → Nat → Role
  | .type, 0 => .slot
  | .moduleReference, 0 | .identifier, 0 | .tagClass, 0 | .tagClassNumber, 0 => .part
  | .type, _ | .moduleReference, _ | .identifier, _ | .tagClass, _ | .tagClassNumber, _ => .rest
  | .extensionMarker, _ => .rest
  | .moduleDefinition, 1 | .moduleDefinition, 2 | .moduleDefinition, 3 | .moduleDefinition, 4
  | .moduleDefinition, 6 => .ignored
  | .moduleBody, 0 | .moduleBody, 1 => .ignored
  | .assignmentList, _ | .objectIdentifierValue, _ => .slot
  | .typeAssignment, 2 | .valueAssignment, 1 | .valueAssignment, 3 => .slot
  | .taggedType, 1 | .taggedType, 2 => .slot
  | .constraint, 0 | .constraint, 1 | .sizeConstraint, 0 | .sizeConstraint, 1 => .slot
  | .componentTypeDefault, 1 | .componentTypeComponentsOf, 0 | .namedType, 1 => .slot
  | .sequenceType, 1 | .setType, 1 | .choiceType, 1 | .valueListType, 1 | .bitStringType, 1 =>
    .slots
  | .sequenceOfType, 0 | .sequenceOfType, 1 | .setOfType, 0 | .setOfType, 1 => .typeSlot
  | .namedType, 0 => .typeSlot
  | .namedValue, 1 => .number
  | _, _ => .part

/-! ## Drafts that are alike -/

/-- Both drafts are built alike, and reports name the same production. -/
structure Draft.Interchangeable (d d' : Draft) : Prop where
  build : d'.build = d.build
  production : d'.unwrapped.production = d.unwrapped.production

/-- The elements, which may be missing, come to the same in a place of the given role. -/
inductive Role.Like : Role → Option (Element Draft) → Option (Element Draft) → Prop where
  | missing {r : Role} : Like r none none
  | token {r : Role} {text : String} : Like r (some (.token text)) (some (.token text))
  | list {r : Role} {ds ds' : List Draft}
      (h : r = .slots → List.Forall₂ Draft.Interchangeable ds ds') :
    Like r (some (.list ds)) (some (.list ds'))
  | built {r : Role} {d d' : Draft}
      (hr : r = .slot ∨ r = .typeSlot ∧ d.production = .type ∧ d'.production = .type)
      (h : d.Interchangeable d') : Like r (some (.tree d)) (some (.tree d'))
  | part {r : Role} {d d' : Draft} (hslot : r ≠ .slot)
      (htype : r = .typeSlot → d.production ≠ .type) (hnumber : r ≠ .number)
      (hp : d'.production = d.production)
      (h : ∀ i, Like (d.production.role i) d.elements[i]? d'.elements[i]?) :
    Like r (some (.tree d)) (some (.tree d'))
  | number {d d' : Draft} (hp : d'.production = d.production)
      (h : d'.elements.map Element.token? = d.elements.map Element.token?) :
    Like .number (some (.tree d)) (some (.tree d'))
  | ignored {e e' : Element Draft} : Like .ignored (some e) (some e')
  | rest {a a' : Option (Element Draft)} : Like .rest a a'

/-- What is left of a node of production `p`, from the element of index `i` on, is alike. -/
def LikeFrom (p : Production) (i : Nat) (es es' : List (Element Draft)) : Prop :=
  ∀ j, (p.role (i + j)).Like es[j]? es'[j]?

/-- The drafts have the same production, and elements that are alike. -/
structure Draft.Alike (d d' : Draft) : Prop where
  production : d'.production = d.production
  elements : LikeFrom d.production 0 d.elements d'.elements

namespace Role.Like

variable {r : Role} {a a' : Option (Element Draft)} {d d' : Draft}

theorem isSome_eq (h : r.Like a a') (hr : r ≠ .rest) : a'.isSome = a.isSome := by
  cases h <;> first | rfl | contradiction

/-- Elements that are looked at are the same token, or both no token. -/
theorem token?_eq (h : r.Like a a') (hignored : r ≠ .ignored) (hrest : r ≠ .rest) :
    a'.bind Element.token? = a.bind Element.token? := by
  cases h <;> first | rfl | contradiction

/-- Where a production is looked at, it is the same, or there is none. -/
theorem production?_eq (h : Role.part.Like a a') :
    a'.bind Element.production? = a.bind Element.production? := by
  cases h with
  | built hr => simp at hr
  | part _ _ _ hp => exact congrArg some hp
  | _ => rfl

theorem list? (h : Role.slots.Like a a') :
    Option.Rel (List.Forall₂ Draft.Interchangeable) (a.bind Element.list?)
      (a'.bind Element.list?) := by
  cases h with
  | list h => exact .some (h rfl)
  | _ => exact .none

theorem tree? (h : r.Like a a') (hignored : r ≠ .ignored) (hrest : r ≠ .rest) :
    Option.Rel (fun d d' => r.Like (some (.tree d)) (some (.tree d'))) (a.bind Element.tree?)
      (a'.bind Element.tree?) := by
  cases h with
  | missing | token | list => exact .none
  | ignored | rest => contradiction
  | built hr h => exact .some (.built hr h)
  | part hslot htype hnumber hp h => exact .some (.part hslot htype hnumber hp h)
  | number hp h => exact .some (.number hp h)

theorem interchangeable (h : Role.slot.Like (some (.tree d)) (some (.tree d'))) :
    d.Interchangeable d' := by
  cases h <;> first | assumption | contradiction

theorem interchangeable_of_type (h : Role.typeSlot.Like (some (.tree d)) (some (.tree d')))
    (hp : d.production = .type) : d.Interchangeable d' := by
  cases h with
  | built hr h => exact h
  | part hslot htype => exact absurd hp (htype rfl)

/-- Trees whose production is looked at have the same one. -/
theorem production_eq (h : r.Like (some (.tree d)) (some (.tree d')))
    (hr : r = .part ∨ r = .typeSlot ∨ r = .number) : d'.production = d.production := by
  cases h with
  | built hbuilt =>
    obtain rfl | ⟨-, hp, hp'⟩ := hbuilt
    · simp at hr
    · rw [hp, hp']
  | part _ _ _ hp => exact hp
  | number hp => exact hp
  | ignored | rest => simp at hr

/-- Trees that are read as parts are alike. -/
theorem alike (h : r.Like (some (.tree d)) (some (.tree d')))
    (hr : r = .part ∨ r = .typeSlot ∧ d.production ≠ .type) : d.Alike d' := by
  cases h with
  | built hbuilt =>
    obtain rfl | ⟨rfl, hp, -⟩ := hbuilt
    · simp at hr
    · simp [hp] at hr
  | part _ _ _ hp h => exact ⟨hp, by simpa only [LikeFrom, Nat.zero_add] using h⟩
  | number | ignored | rest => simp at hr

end Role.Like

theorem LikeFrom.length_eq {p : Production} {i : Nat} {es es' : List (Element Draft)}
    (h : LikeFrom p i es es') (hrest : ∀ j, p.role (i + j) ≠ .rest) : es.length = es'.length := by
  have hpresent : ∀ j, j < es'.length ↔ j < es.length := by
    intro j
    have hsome := (h j).isSome_eq (hrest j)
    grind
  have := hpresent es.length
  have := hpresent es'.length
  omega

/-! ## Builds that coincide -/

namespace BuildM

variable {α β : Type} {R S : α → α → Prop} {T : β → β → Prop} {x x' : BuildM α}

/-- The builds draw equally many numbers, and their outcomes match, whatever the options are and
wherever the builds start. -/
def Coincide (R : α → α → Prop) (x x' : BuildM α) : Prop :=
  ∀ o s, ∃ r r' s', x.runFrom o s = (r, s') ∧ x'.runFrom o s = (r', s') ∧
    SameOutcome (fun _ => True) R r r'

namespace Coincide

theorem pure {a a' : α} (h : R a a') : Coincide R (pure a) (pure a') :=
  fun _ s => ⟨_, _, s, rfl, rfl, .ok h⟩

theorem throw (e : BuildError) : Coincide R (throw e) (throw e) :=
  fun _ s => ⟨_, _, s, rfl, rfl, .error trivial⟩

theorem refl (x : BuildM α) : Coincide Eq x x := by
  intro o s
  obtain ⟨result, count⟩ := x.runFrom o s
  refine ⟨result, result, count, rfl, rfl, ?_⟩
  cases result with
  | ok a => exact .ok rfl
  | error e => exact .error trivial

theorem bind {f f' : α → BuildM β} (hx : Coincide R x x')
    (hf : ∀ a a', R a a' → Coincide T (f a) (f' a')) : Coincide T (x >>= f) (x' >>= f') := by
  intro o s
  obtain ⟨r, r', s', hr, hr', houtcome⟩ := hx o s
  rw [runFrom_bind, runFrom_bind, hr, hr']
  cases houtcome with
  | ok ha => exact hf _ _ ha o s'
  | error => exact ⟨_, _, s', rfl, rfl, .error trivial⟩

theorem mono (h : Coincide R x x') (hRS : ∀ a a', R a a' → S a a') : Coincide S x x' := by
  intro o s
  obtain ⟨r, r', s', hr, hr', houtcome⟩ := h o s
  refine ⟨r, r', s', hr, hr', ?_⟩
  cases houtcome with
  | ok ha => exact .ok (hRS _ _ ha)
  | error => exact .error trivial

/-- Builds that come to equal results are equal. -/
theorem eq (h : Coincide Eq x x') : x' = x := by
  funext o s
  obtain ⟨r, r', s', hr, hr', houtcome⟩ := h o s
  obtain rfl : r = r' := by
    cases houtcome with
    | ok ha => rw [ha]
    | error => rfl
  exact hr'.trans hr.symm

end Coincide

end BuildM

namespace Reading

variable {α β : Type} {p : Production} {i : Nat}

/-- The steps of reading a node of production `p` coincide, if what is left of it from the element
of index `i` on is alike. If they do not fail, their results are related by `Q`, which also says how
far the node has been read by then. -/
def Coincide (p : Production) (i : Nat) (Q : α → α → Nat → Prop) (r r' : Reading α) : Prop :=
  ∀ es es', LikeFrom p i es es' →
    BuildM.Coincide (fun x x' => ∃ j fs fs', x.2 = ⟨p, j, fs⟩ ∧ x'.2 = ⟨p, j, fs'⟩ ∧
      LikeFrom p j fs fs' ∧ Q x.1 x'.1 j) (r.run ⟨p, i, es⟩) (r'.run ⟨p, i, es'⟩)

section Rules

variable {P Q : α → α → Nat → Prop} {S : β → β → Nat → Prop} {r r' : Reading α}

theorem coincide_pure {a a' : α} (h : Q a a' i) : Coincide p i Q (pure a) (pure a') :=
  fun es es' hes => .pure ⟨i, es, es', rfl, rfl, hes, h⟩

theorem coincide_bind {f f' : α → Reading β} (hr : Coincide p i P r r')
    (hf : ∀ a a' j, P a a' j → Coincide p j S (f a) (f' a')) :
    Coincide p i S (r >>= f) (r' >>= f') := by
  intro es es' hes
  rw [StateT.run_bind, StateT.run_bind]
  refine .bind (hr es es' hes) ?_
  rintro ⟨a, _⟩ ⟨a', _⟩ ⟨j, fs, fs', rfl, rfl, hfs, ha⟩
  exact hf a a' j ha fs fs' hfs

/-- After equal results, with the node read up to the same element, it is enough to go on alike. -/
theorem coincide_bind_eq {j : Nat} {f f' : α → Reading β}
    (hr : Coincide p i (fun a a' k => a = a' ∧ k = j) r r')
    (hf : ∀ a, Coincide p j S (f a) (f' a)) : Coincide p i S (r >>= f) (r' >>= f') := by
  refine coincide_bind hr ?_
  rintro a _ _ ⟨rfl, rfl⟩
  exact hf a

theorem coincide_mono (h : Coincide p i P r r') (hPQ : ∀ a a' j, P a a' j → Q a a' j) :
    Coincide p i Q r r' := fun es es' hes =>
  (h es es' hes).mono fun _ _ ⟨j, fs, fs', hx, hx', hfs, ha⟩ =>
    ⟨j, fs, fs', hx, hx', hfs, hPQ _ _ j ha⟩

theorem coincide_map {f : α → β} (h : Coincide p i P r r')
    (hf : ∀ a a' j, P a a' j → S (f a) (f a') j) :
    Coincide p i S (f <$> r) (f <$> r') := by
  rw [map_eq_pure_bind, map_eq_pure_bind]
  exact coincide_bind h fun a a' j ha => coincide_pure (hf a a' j ha)

theorem coincide_throw {e : BuildError} : Coincide p i Q (throw e) (throw e) := by
  intro es es' _
  change BuildM.Coincide _ (throw e >>= fun a => pure (a, ⟨p, i, es⟩))
    (throw e >>= fun a => pure (a, ⟨p, i, es'⟩))
  exact .bind (R := fun _ _ => False) (.throw e) nofun

theorem coincide_fail {d : Defect} : Coincide p i Q (fail d) (fail d) := by
  intro es es' _
  rw [run_fail, run_fail]
  exact .throw _

theorem coincide_get :
    Coincide p i (fun c c' j => c.index = i ∧ c'.index = i ∧ j = i) get get :=
  fun es es' hes => .pure ⟨i, es, es', rfl, rfl, hes, rfl, rfl, rfl⟩

theorem coincide_lift {R : α → α → Prop} {x x' : BuildM α} (h : BuildM.Coincide R x x') :
    Coincide p i (fun a a' j => R a a' ∧ j = i) (monadLift x) (monadLift x') := by
  intro es es' hes
  rw [StateT.run_monadLift, StateT.run_monadLift]
  exact .bind h fun a a' ha => .pure ⟨i, es, es', rfl, rfl, hes, ha, rfl⟩

/-- A tree below is read from its first element on. -/
theorem coincide_read {q : Production} {d d' : Draft} (hd : d.Alike d') (hq : d.production = q)
    (h : Coincide q 0 Q r r') :
    Coincide p i (fun a a' j => (∃ k, Q a a' k) ∧ j = i) (monadLift (d.read r))
      (monadLift (d'.read r')) := by
  obtain ⟨hproduction, helements⟩ := hd
  subst hq
  refine coincide_lift ?_
  rw [Draft.read, Draft.read, Reading.of, Reading.of, hproduction, StateT.run'_eq,
    StateT.run'_eq, map_eq_pure_bind, map_eq_pure_bind]
  refine .bind (h _ _ helements) ?_
  rintro x x' ⟨k, -, -, -, -, -, hQ⟩
  exact .pure ⟨k, hQ⟩

/-! ## Single elements -/

/-- An element is taken alike if `pick` makes the same of elements that are alike. -/
theorem coincide_take {pick : Element Draft → Option α} {defect : Nat → Defect}
    {R : α → α → Prop}
    (hpick : ∀ a a', (p.role i).Like a a' → Option.Rel R (a.bind pick) (a'.bind pick)) :
    Coincide p i (fun a a' j => R a a' ∧ j = i + 1) (take pick defect) (take pick defect) := by
  intro es es' hes
  have htail : LikeFrom p (i + 1) es.tail es'.tail := by
    intro j
    rw [List.getElem?_tail, List.getElem?_tail, Nat.add_right_comm]
    exact hes (j + 1)
  have hhead := hpick _ _ (by simpa using hes 0)
  rw [run_take, run_take, List.head?_eq_getElem?, List.head?_eq_getElem?]
  generalize es[0]?.bind pick = picked at hhead ⊢
  generalize es'[0]?.bind pick = picked' at hhead ⊢
  cases hhead with
  | some ha => exact .pure ⟨i + 1, es.tail, es'.tail, rfl, rfl, htail, ha, rfl⟩
  | none => exact .throw _

theorem coincide_token (hignored : p.role i ≠ .ignored) (hrest : p.role i ≠ .rest) :
    Coincide p i (fun text text' j => text = text' ∧ j = i + 1) token token := by
  refine coincide_take fun a a' ha => ?_
  rw [ha.token?_eq hignored hrest]
  cases a.bind Element.token? with
  | none => exact .none
  | some text => exact .some rfl

theorem coincide_list (hi : p.role i = .slots) :
    Coincide p i (fun ds ds' j => List.Forall₂ Draft.Interchangeable ds ds' ∧ j = i + 1)
      list list := by
  refine coincide_take fun a a' ha => ?_
  rw [hi] at ha
  exact ha.list?

theorem coincide_element (hrest : p.role i ≠ .rest) :
    Coincide p i (fun e e' j => (p.role i).Like (some e) (some e') ∧ j = i + 1)
      element element := by
  refine coincide_take fun a a' ha => ?_
  have hsome := ha.isSome_eq hrest
  cases a <;> cases a' <;> simp at hsome
  · exact .none
  · exact .some ha

/-- Trees are taken alike. Their productions have to be the same if a production is expected. -/
theorem coincide_node {expected : List Production} (hignored : p.role i ≠ .ignored)
    (hrest : p.role i ≠ .rest)
    (hexpected : expected = [] ∨ p.role i = .part ∨ p.role i = .typeSlot) :
    Coincide p i (fun d d' j => (p.role i).Like (some (.tree d)) (some (.tree d')) ∧ j = i + 1 ∧
      (expected = [] ∨ d.production ∈ expected)) (node expected) (node expected) := by
  have htree : Coincide p i (fun d d' j =>
      (p.role i).Like (some (.tree d)) (some (.tree d')) ∧ j = i + 1)
      (take Element.tree? (.expectedNode · expected))
      (take Element.tree? (.expectedNode · expected)) :=
    coincide_take fun _ _ ha => ha.tree? hignored hrest
  refine coincide_bind coincide_get ?_
  rintro c c' _ ⟨hc, hc', rfl⟩
  refine coincide_bind htree ?_
  rintro d d' _ ⟨hd, rfl⟩
  rcases hexpected with rfl | hrole
  · exact coincide_pure ⟨hd, rfl, .inl rfl⟩
  · have hp := hd.production_eq (by grind)
    rw [hp, hc, hc']
    split
    · exact coincide_pure ⟨hd, rfl, by assumption⟩
    · exact coincide_fail

theorem coincide_part {expected : List Production} (hi : p.role i = .part) :
    Coincide p i (fun d d' j => d.Alike d' ∧ j = i + 1 ∧
      (expected = [] ∨ d.production ∈ expected)) (node expected) (node expected) := by
  refine coincide_mono (coincide_node (by simp [hi]) (by simp [hi]) (.inr (.inl hi))) ?_
  rintro d d' j ⟨hd, hj, hproduction⟩
  exact ⟨hd.alike (.inl hi), hj, hproduction⟩

theorem coincide_skip (count : Nat) (hrest : ∀ j < count, p.role (i + j) ≠ .rest) :
    Coincide p i (fun _ _ j => j = i + count) (skip count) (skip count) := by
  induction count generalizing i with
  | zero => exact coincide_pure rfl
  | succ count ih =>
    refine coincide_bind (coincide_element (hrest 0 (by omega))) ?_
    rintro _ _ _ ⟨-, rfl⟩
    refine coincide_mono (ih fun j hj => ?_) fun _ _ _ hj => by omega
    rw [Nat.add_right_comm]
    exact hrest (j + 1) (by omega)

theorem coincide_finish (hrest : p.role i ≠ .rest) :
    Coincide p i (fun _ _ j => j = i) finish finish := by
  intro es es' hes
  have hnil : es' = [] ↔ es = [] := by
    have hsome := (hes 0).isSome_eq hrest
    cases es <;> cases es' <;> simp_all
  rw [run_finish, run_finish]
  simp only [hnil]
  split
  · exact .pure ⟨i, es, es', rfl, rfl, hes, rfl⟩
  · exact .throw _

/-! ## Optional and repeated elements -/

theorem coincide_ifNext {q : Element Draft → Bool}
    (hq : ∀ a a', (p.role i).Like a a' → a'.any q = a.any q) (h : Coincide p i Q r r') :
    Coincide p i (fun b b' j => (∃ a a', b = some a ∧ b' = some a' ∧ Q a a' j) ∨
      b = none ∧ b' = none ∧ j = i) (ifNext q r) (ifNext q r') := by
  intro es es' hes
  have hnext := hq _ _ (by simpa using hes 0)
  rw [run_ifNext, run_ifNext, List.head?_eq_getElem?, List.head?_eq_getElem?, hnext]
  split
  · refine .bind (h es es' hes) ?_
    rintro ⟨a, _⟩ ⟨a', _⟩ ⟨j, fs, fs', rfl, rfl, hfs, ha⟩
    exact .pure ⟨j, fs, fs', rfl, rfl, hfs, .inl ⟨a, a', rfl, rfl, ha⟩⟩
  · exact .pure ⟨i, es, es', rfl, rfl, hes, .inr ⟨rfl, rfl, rfl⟩⟩

/-- A step that takes one element, repeated for all that are left. -/
theorem coincide_forEachLeft (hrest : ∀ j, p.role j ≠ .rest)
    (h : ∀ j, Coincide p j (fun a a' k => a = a' ∧ k = j + 1) r r') :
    Coincide p i (fun as as' _ => as = as') (forEachLeft r) (forEachLeft r') := by
  have hloop : ∀ ds ds' : List (Element Draft), ds.length = ds'.length → ∀ i,
      Coincide p i (fun as as' _ => as = as') (ds.mapM fun _ => r) (ds'.mapM fun _ => r') := by
    intro ds
    induction ds with
    | nil =>
      intro ds' hlength i
      obtain rfl := List.length_eq_zero_iff.1 hlength.symm
      exact coincide_pure rfl
    | cons d ds ih =>
      intro ds' hlength i
      obtain _ | ⟨d', ds'⟩ := ds'
      · simp at hlength
      · rw [List.mapM_cons, List.mapM_cons]
        refine coincide_bind_eq (h i) fun a => ?_
        refine coincide_bind (ih ds' (by simpa using hlength) (i + 1)) ?_
        rintro as _ _ rfl
        exact coincide_pure rfl
  intro es es' hes
  rw [run_forEachLeft, run_forEachLeft]
  exact hloop es es' (hes.length_eq fun j => hrest (i + j)) i es es' hes

/-! ## Nodes in their places -/

section Places

variable {slot : Slot α} {d d' : Draft}

theorem coincide_fit (h : d.Interchangeable d') :
    Coincide p i (fun a a' j => a = a' ∧ j = i) (fit slot d) (fit slot d') := by
  intro es es' hes
  rw [run_fit, run_fit, h.build, h.production]
  refine .bind (.refl _) ?_
  rintro n _ rfl
  cases slot.accept n with
  | none => exact .throw _
  | some a => exact .pure ⟨i, es, es', rfl, rfl, hes, rfl, rfl⟩

theorem coincide_mapM_fit {ds ds' : List Draft} (h : List.Forall₂ Draft.Interchangeable ds ds') :
    Coincide p i (fun as as' j => as = as' ∧ j = i) (ds.mapM (fit slot)) (ds'.mapM (fit slot)) := by
  induction h with
  | nil => exact coincide_pure ⟨rfl, rfl⟩
  | cons hd _ ih =>
    rw [List.mapM_cons, List.mapM_cons]
    refine coincide_bind_eq (coincide_fit hd) fun a => ?_
    refine coincide_bind_eq ih fun as => ?_
    exact coincide_pure ⟨rfl, rfl⟩

theorem coincide_next (hi : p.role i = .slot) :
    Coincide p i (fun a a' j => a = a' ∧ j = i + 1) (next slot) (next slot) := by
  refine coincide_bind (coincide_node (by simp [hi]) (by simp [hi]) (.inl rfl)) ?_
  rintro d d' _ ⟨hd, rfl, -⟩
  rw [hi] at hd
  exact coincide_fit hd.interchangeable

theorem coincide_value (hi : p.role i = .slot) :
    Coincide p i (fun v v' j => v = v' ∧ j = i + 1) value value := by
  refine coincide_bind coincide_get ?_
  rintro c c' _ ⟨hc, hc', rfl⟩
  refine coincide_bind (coincide_element (by simp [hi])) ?_
  rintro e e' _ ⟨he, rfl⟩
  rw [hi] at he
  rw [hc, hc']
  cases he with
  | token => exact coincide_pure ⟨rfl, rfl⟩
  | list => exact coincide_fail
  | built _ h => exact coincide_fit h
  | part hslot => contradiction

end Places

end Rules

end Reading

end AsnModel
