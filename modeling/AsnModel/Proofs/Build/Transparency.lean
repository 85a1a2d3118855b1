import AsnModel.Proofs.Build.Likeness
import Mathlib.Logic.Relation

/-!
# What does not matter in a parse tree

Generic type wrappers make no difference around what is built, and neither do elements that are
passed over. Trees that differ in nothing else are built alike, and fail alike, in every context.

## Main definitions

* `Replaces` — replace one part of a tree that does not matter, at any depth.
* `ParseTree.Equivalent` — the congruence of such replacements.
-/

namespace AsnModel

/-! ## Trees that differ where it does not matter -/

/-- One replacement in an element of the given role. What is built may be wrapped, elements that are
ignored may be any others, and where nothing depends on the elements at the end of a node, there may
be others, and more or fewer of them. The number of a named value has no such elements, since all of
them are looked at, but there may be a replacement inside one of them. -/
inductive Replaces : Role → Element ParseTree → Element ParseTree → Prop where
  | wrap {t : ParseTree} {es : List (Element ParseTree)} :
    Replaces .slot (.tree t) (.tree (.node .type (.tree t :: es)))
  | wrapType {us es : List (Element ParseTree)} :
    Replaces .typeSlot (.tree (.node .type us))
      (.tree (.node .type (.tree (.node .type us) :: es)))
  | ignored {e e' : Element ParseTree} : Replaces .ignored e e'
  | rest {r : Role} {p : Production} {es fs fs' : List (Element ParseTree)} (hr : r ≠ .number)
      (h : ∀ i, es.length ≤ i → p.role i = .rest) :
    Replaces r (.tree (.node p (es ++ fs))) (.tree (.node p (es ++ fs')))
  | node {r : Role} {p : Production} {es : List (Element ParseTree)} {i : Nat}
      {e e' : Element ParseTree} (hr : r ≠ .number) (he : es[i]? = some e)
      (h : Replaces (p.role i) e e') :
    Replaces r (.tree (.node p es)) (.tree (.node p (es.set i e')))
  | number {p : Production} {es : List (Element ParseTree)} {i : Nat} {e e' : Element ParseTree}
      (he : es[i]? = some e) (h : Replaces .part e e') :
    Replaces .number (.tree (.node p es)) (.tree (.node p (es.set i e')))
  | item {r : Role} {ts : List ParseTree} {i : Nat} {t t' : ParseTree} (ht : ts[i]? = some t)
      (h : Replaces r.item (.tree t) (.tree t')) :
    Replaces r (.list ts) (.list (ts.set i t'))

/-- The trees are the same up to replacements. -/
def ParseTree.Equivalent : ParseTree → ParseTree → Prop :=
  Relation.EqvGen fun t t' => Replaces .part (.tree t) (.tree t')

/-! ## Drafts of trees -/

namespace Draft

theorem Interchangeable.refl (d : Draft) : d.Interchangeable d := ⟨rfl, rfl⟩

theorem Interchangeable.forall₂_set {ds : List Draft} {i : Nat} {d d' : Draft}
    (hd : ds[i]? = some d) (h : d.Interchangeable d') :
    List.Forall₂ Interchangeable ds (ds.set i d') := by
  induction ds generalizing i with
  | nil => simp at hd
  | cons c ds ih =>
    cases i with
    | zero =>
      obtain rfl : c = d := by simpa using hd
      exact .cons h (List.forall₂_same.2 fun c _ => .refl c)
    | succ i => exact .cons (.refl c) (ih (by simpa using hd))

/-- The production inside all wrappers is found in the first element of a wrapper, if it is a
tree. -/
theorem production_unwrapped (p : Production) (x : BuildM Node) (es : List (Element Draft)) :
    (unwrapped (.node (p, x) es)).production =
      if p = .type then
        ((es[0]?.bind Element.tree?).map fun d => d.unwrapped.production).getD .type
      else p := by
  cases p with
  | type =>
    match es with
    | [] | .token _ :: _ | .list _ :: _ | .tree _ :: _ => rfl
  | _ => rfl

theorem production_unwrapped_eq {p : Production} {es es' : List (Element Draft)}
    (h : LikeFrom p 0 es es') (x x' : BuildM Node) :
    (unwrapped (.node (p, x') es')).production = (unwrapped (.node (p, x) es)).production := by
  rw [production_unwrapped, production_unwrapped]
  split
  · subst p
    have hfirst := (h 0).tree? (by decide) (by decide)
    generalize es[0]?.bind Element.tree? = first at hfirst ⊢
    generalize es'[0]?.bind Element.tree? = first' at hfirst ⊢
    cases hfirst with
    | none => rfl
    | some hd => simp [hd.interchangeable.production]
  · rfl

end Draft

/-- A wrapper is built as its first element is, whatever follows. -/
theorem construct_wrapper (d : Draft) (es : List (Element Draft)) :
    construct .type (.tree d :: es) = d.build := by
  simp [construct, Reading.of, Reading.rule, Reading.run_node]

namespace Role.Like

variable {r : Role}

/-- Drafts that come to the same whether they are built or read as parts do so in all places but
those of numbers. -/
theorem of_interchangeable {d d' : Draft} (hr : r ≠ .number) (h : d.Interchangeable d')
    (hd : d.Alike d') : r.Like (some (.tree d)) (some (.tree d')) := by
  by_cases hslot : r = .slot
  · exact .built (.inl hslot) h
  by_cases htype : r = .typeSlot ∧ d.production = .type
  · exact .built (.inr ⟨htype.1, htype.2, hd.production.trans htype.2⟩) h
  · refine .part hslot (fun hr hp => htype ⟨hr, hp⟩) hr hd.production fun i => ?_
    simpa using hd.elements i

theorem refl (r : Role) (a : Option (Element Draft)) : r.Like a a :=
  match a with
  | none => .missing
  | some (.token _) => .token
  | some (.list _) => .list fun _ => List.forall₂_same.2 fun d _ => .refl d
  | some (.tree (.node l es)) =>
    if hr : r = .number then hr ▸ .number rfl rfl
    else of_interchangeable hr (.refl _) ⟨rfl, fun i => refl _ es[i]?⟩
termination_by sizeOf a
decreasing_by
  rcases he : es[i]? with _ | e
  · simp only [Option.none.sizeOf_spec, Option.some.sizeOf_spec, Element.tree.sizeOf_spec,
      Tree.node.sizeOf_spec]
    omega
  · have := List.sizeOf_lt_of_mem (List.mem_of_getElem? he)
    simp only [Option.some.sizeOf_spec, Element.tree.sizeOf_spec, Tree.node.sizeOf_spec]
    omega

end Role.Like

namespace LikeFrom

variable {p : Production} {es : List (Element Draft)}

/-- The end of a node may be anything where nothing depends on it. -/
theorem append (hrest : ∀ i, es.length ≤ i → p.role i = .rest) (fs fs' : List (Element Draft)) :
    LikeFrom p 0 (es ++ fs) (es ++ fs') := by
  intro j
  rw [Nat.zero_add]
  by_cases hj : j < es.length
  · rw [List.getElem?_append_left hj, List.getElem?_append_left hj]
    exact .refl _ _
  · rw [hrest j (by omega)]
    exact .rest

theorem set {i : Nat} {e e' : Element Draft} (he : es[i]? = some e)
    (h : (p.role i).Like (some e) (some e')) : LikeFrom p 0 es (es.set i e') := by
  intro j
  rw [Nat.zero_add]
  by_cases hj : i = j
  · subst hj
    rw [List.getElem?_set_self (List.getElem?_eq_some_iff.1 he).1, he]
    exact h
  · rw [List.getElem?_set_ne hj]
    exact .refl _ _

end LikeFrom

namespace ParseTree

variable {p : Production} {es es' : List (Element ParseTree)}

theorem draft_node (p : Production) (es : List (Element ParseTree)) :
    draft (.node p es) =
      .node (p, construct p (es.map (Element.map draft))) (es.map (Element.map draft)) :=
  Tree.annotate_node construct p es

/-- What is built of a node, and how reports name it, depends on what its elements come to. -/
theorem interchangeable_node
    (h : LikeFrom p 0 (es.map (Element.map draft)) (es'.map (Element.map draft))) :
    (draft (.node p es)).Interchangeable (draft (.node p es')) := by
  rw [draft_node, draft_node]
  exact ⟨construct_eq_of_likeFrom h, Draft.production_unwrapped_eq h _ _⟩

/-- A wrapper can stand for what it wraps. -/
theorem interchangeable_wrapper (t : ParseTree) (es : List (Element ParseTree)) :
    t.draft.Interchangeable (draft (.node .type (.tree t :: es))) := by
  rw [draft_node]
  exact ⟨construct_wrapper _ _, rfl⟩

theorem like_node {r : Role} (hr : r ≠ .number)
    (h : LikeFrom p 0 (es.map (Element.map draft)) (es'.map (Element.map draft))) :
    r.Like (some (.tree (draft (.node p es)))) (some (.tree (draft (.node p es')))) :=
  .of_interchangeable hr (interchangeable_node h) (by rw [draft_node, draft_node]; exact ⟨rfl, h⟩)

end ParseTree

/-! ## Replacements -/

namespace Replaces

open ParseTree

variable {r : Role} {e e' : Element ParseTree} {t t' : ParseTree}

/-- A part that is no token does not become one. -/
theorem token?_eq (h : Replaces .part e e') : e'.token? = e.token? := by
  cases h <;> rfl

/-- Before and after a replacement, an element comes to the same. -/
theorem like (h : Replaces r e e') : r.Like (some (e.map draft)) (some (e'.map draft)) := by
  induction h with
  | wrap => exact .built (.inl rfl) (interchangeable_wrapper _ _)
  | wrapType => exact .built (.inr ⟨rfl, by simp, by simp⟩) (interchangeable_wrapper _ _)
  | ignored => exact .ignored
  | rest hr hrest =>
    refine like_node hr ?_
    rw [List.map_append, List.map_append]
    exact .append (by simpa using hrest) _ _
  | node hr he _ ih =>
    refine like_node hr ?_
    rw [List.map_set]
    exact .set (by rw [List.getElem?_map, he]; rfl) ih
  | @number p es i e e' he h =>
    have htokens : (es.set i e').map Element.token? = es.map Element.token? := by
      obtain ⟨hi, rfl⟩ := List.getElem?_eq_some_iff.1 he
      rw [List.map_set, h.token?_eq, ← List.map_set, List.set_getElem_self]
    refine .number (by simp) ?_
    simpa [Function.comp_def] using htokens
  | item ht _ ih =>
    refine .list fun hr => ?_
    subst hr
    rw [List.map_set]
    exact Draft.Interchangeable.forall₂_set (by rw [List.getElem?_map, ht]; rfl) ih.interchangeable

/-- What may be replaced in a part may be replaced in what is built, too. -/
theorem of_part (h : Replaces .part (.tree t) (.tree t')) (hr : r ≠ .number) :
    Replaces r (.tree t) (.tree t') := by
  cases h with
  | rest _ hrest => exact .rest hr hrest
  | node _ he h => exact .node hr he h

theorem alike (h : Replaces .part (.tree t) (.tree t')) : t.draft.Alike t'.draft :=
  h.like.alike (.inl rfl)

theorem label_eq (h : Replaces .part (.tree t) (.tree t')) : t'.label = t.label := by
  simpa using h.alike.production

theorem build_eq (h : Replaces .part (.tree t) (.tree t')) : t'.build = t.build := by
  have hd := h.alike
  obtain ⟨p, es⟩ := t
  obtain ⟨p', es'⟩ := t'
  obtain rfl : p' = p := h.label_eq
  rw [build_node, build_node]
  exact construct_eq_of_likeFrom (by simpa using hd.elements)

theorem buildModule_eq (h : Replaces .part (.tree t) (.tree t')) :
    buildModule t' = buildModule t := by
  rw [buildModule, buildModule, h.label_eq]
  split
  next hmodule =>
    have hd := h.alike
    rw [Draft.read, Draft.read, hd.production]
    refine read_eq_of_likeFrom hd.elements ?_
    rw [production_draft, hmodule]
    exact Reading.coincide_module
  next => rfl

end Replaces

namespace ParseTree

variable {t t' : ParseTree} {ts ts' : List ParseTree}

namespace Equivalent

/-- What a replacement does not change is the same for equivalent trees. -/
theorem invariant {α : Sort*} {f : ParseTree → α}
    (hf : ∀ t t', Replaces .part (.tree t) (.tree t') → f t' = f t) (h : t.Equivalent t') :
    f t' = f t := by
  induction h with
  | rel _ _ h => exact hf _ _ h
  | refl => rfl
  | symm _ _ _ ih => exact ih.symm
  | trans _ _ _ _ _ ih ih' => exact ih'.trans ih

theorem build_eq (h : t.Equivalent t') : t'.build = t.build :=
  h.invariant fun _ _ => Replaces.build_eq

theorem buildModule_eq (h : t.Equivalent t') : buildModule t' = buildModule t :=
  h.invariant fun _ _ => Replaces.buildModule_eq

theorem context {f : ParseTree → ParseTree}
    (hf : ∀ t t', Replaces .part (.tree t) (.tree t') → Replaces .part (.tree (f t)) (.tree (f t')))
    (h : t.Equivalent t') : (f t).Equivalent (f t') := by
  induction h with
  | rel _ _ h => exact .rel _ _ (hf _ _ h)
  | refl => exact .refl _
  | symm _ _ _ ih => exact ih.symm
  | trans _ _ _ _ _ ih ih' => exact ih.trans _ _ _ ih'

variable {p : Production} (es fs : List (Element ParseTree))

/-- Equivalent trees may stand for each other in a node, unless a number is expected there. -/
theorem node (hp : p.role es.length ≠ .number) (h : t.Equivalent t') :
    Equivalent (.node p (es ++ .tree t :: fs)) (.node p (es ++ .tree t' :: fs)) := by
  refine h.context (f := fun t => .node p (es ++ .tree t :: fs)) fun t t' h => ?_
  have hnode : Replaces .part (.tree (.node p (es ++ .tree t :: fs)))
      (.tree (.node p ((es ++ .tree t :: fs).set es.length (.tree t')))) :=
    .node (by decide) (by simp) (h.of_part hp)
  simpa using hnode

/-- Equivalent trees may stand for each other in a list. -/
theorem item (ts us : List ParseTree) (h : t.Equivalent t') :
    Equivalent (.node p (es ++ .list (ts ++ t :: us) :: fs))
      (.node p (es ++ .list (ts ++ t' :: us) :: fs)) := by
  refine h.context (f := fun t => .node p (es ++ .list (ts ++ t :: us) :: fs)) fun t t' h => ?_
  have hlist : Replaces (p.role es.length) (.list (ts ++ t :: us))
      (.list ((ts ++ t :: us).set ts.length t')) :=
    .item (by simp) (h.of_part (by cases p.role es.length <;> decide))
  have hnode : Replaces .part (.tree (.node p (es ++ .list (ts ++ t :: us) :: fs)))
      (.tree (.node p ((es ++ .list (ts ++ t :: us) :: fs).set es.length
        (.list ((ts ++ t :: us).set ts.length t'))))) :=
    .node (by decide) (by simp) hlist
  simpa using hnode

end Equivalent

theorem buildForest_eq (h : List.Forall₂ Equivalent ts ts') :
    buildForest ts' = buildForest ts := by
  induction h with
  | nil => rfl
  | cons ht _ ih =>
    simp only [buildForest, List.mapM_cons] at ih ⊢
    rw [ht.buildModule_eq, ih]

end ParseTree

/-- Equivalent trees are built to the same node and to the same module, with equally many names
generated, or fail with the same report, whatever the options are and wherever the sequence of
generated names has got to. Lists of equivalent trees are built to the same modules. -/
theorem build_of_equivalent (o : BuildOptions) (drawn : Nat) :
    (∀ t t' : ParseTree, t.Equivalent t' →
      t'.build.runFrom o drawn = t.build.runFrom o drawn ∧
        (buildModule t').runFrom o drawn = (buildModule t).runFrom o drawn) ∧
    (∀ ts ts' : List ParseTree, List.Forall₂ ParseTree.Equivalent ts ts' →
      (buildForest ts').runFrom o drawn = (buildForest ts).runFrom o drawn) :=
  ⟨fun _ _ h => ⟨by rw [h.build_eq], by rw [h.buildModule_eq]⟩,
    fun _ _ h => by rw [ParseTree.buildForest_eq h]⟩

/-- The type of `T` is wrapped, with a list behind it, and `EXPORTS` is a tree instead of a token. -/
theorem build_of_equivalent_wrapped_type :
    let tree : Element ParseTree → Element ParseTree → ParseTree := fun e type =>
      .node .moduleDefinition [.tree (.node .moduleReference [.token "M"]), .token "DEFINITIONS",
        .token "", .token "", .token "::=", .tree (.node .moduleBody [e, .token "",
          .tree (.node .assignmentList [.tree (.node .typeAssignment
            [.token "T", .token "::=", type])])]), .token "END"]
    let t : ParseTree := tree (.token "EXPORTS") (.tree (.node .referencedType [.token "U"]))
    let t' : ParseTree := tree (.tree (.node .exports []))
      (.tree (.node .type [.tree (.node .referencedType [.token "U"]), .list []]))
    t.Equivalent t' ∧ t'.build.runFrom {} 0 = t.build.runFrom {} 0 ∧
      (buildModule t').runFrom {} 0 = (buildModule t).runFrom {} 0 ∧
      (buildForest [t, t']).runFrom {} 0 = (buildForest [t, t]).runFrom {} 0 ∧
      (buildModule t).runFrom {} 0 = (.ok ⟨"M", [.type "T" (.reference ⟨none, "U"⟩)]⟩, 0) := by
  intro tree t t'
  have hexports : t.Equivalent
      (tree (.tree (.node .exports [])) (.tree (.node .referencedType [.token "U"]))) :=
    .rel _ _ (.node (i := 5) (by decide) rfl (.node (i := 0) (by decide) rfl .ignored))
  have hwrapped : (tree (.tree (.node .exports []))
      (.tree (.node .referencedType [.token "U"]))).Equivalent t' :=
    .rel _ _ (.node (i := 5) (by decide) rfl (.node (i := 2) (by decide) rfl
      (.node (i := 0) (by decide) rfl (.node (i := 2) (by decide) rfl .wrap))))
  have hequivalent : t.Equivalent t' := hexports.trans _ _ _ hwrapped
  obtain ⟨hbuild, hforest⟩ := build_of_equivalent {} 0
  obtain ⟨htree, hmodule⟩ := hbuild t t' hequivalent
  exact ⟨hequivalent, htree, hmodule, hforest _ _ (.cons (.refl t) (.cons hequivalent .nil)), rfl⟩

end AsnModel
