import AsnModel.Proofs.Build.Faults

/-!
# Runs that agree

Reading the elements of a tree comes to the same, up to generated names, in all runs that treat
anonymous members alike. Either all runs succeed, or all fail with the same error, which something
in the tree explains.

## Main definitions

* `ParseTree.cursor` — a tree that is read up to one of its elements.
* `ParseTree.Agrees` — all runs of building a tree agree.
* `Reading.Agree` — all runs of a step of reading agree.

A lemma `agree_…` says for each step of reading what it makes of the tree being read.
-/

namespace AsnModel

/-- The part that a place makes of a node keeps its names, and `erase` empties them. -/
def Slot.Erases {α : Type} (slot : Slot α) (erase : α → α) : Prop :=
  ∀ n : Node, slot.accept n.nameless = (slot.accept n).map erase

namespace Slot

theorem erases_typeDecl : typeDecl.Erases TypeDecl.nameless := by
  intro n
  cases n <;> rfl

theorem erases_assignment : assignment.Erases Assignment.nameless := by
  intro n
  cases n <;> rfl

theorem erases_value : value.Erases id := by
  intro n
  cases n <;> rfl

theorem erases_member : member.Erases Member.nameless := by
  intro n
  cases n <;> rfl

theorem erases_listItem : listItem.Erases id := by
  intro n
  cases n <;> rfl

theorem erases_arc : arc.Erases id := by
  intro n
  cases n <;> rfl

end Slot

namespace ParseTree

/-- The tree, read up to the element of the given index. -/
def cursor (t : ParseTree) (index : Nat) : Cursor := .onto t.label index (t.elements.drop index)

/-- All runs of building the tree, with the options `o` and with `o'`, agree up to names. -/
def Agrees (o o' : BuildOptions) (t : ParseTree) : Prop :=
  BuildM.Agree o o' (t.Explains o) (fun n n' => n.nameless = n'.nameless) t.build t.build

/-- All runs of building the trees that stand in the tree agree. -/
def AgreesBelow (o o' : BuildOptions) (t : ParseTree) : Prop :=
  ∀ w : ParseTree, w.Within t → ∀ u ∈ w.held, u.Agrees o o'

variable {o o' : BuildOptions} {t u : ParseTree} {i : Nat}

theorem AgreesBelow.held (h : t.AgreesBelow o o') : ∀ u ∈ t.held, u.Agrees o o' := h t .refl

theorem AgreesBelow.of_within (h : t.AgreesBelow o o') (hu : u.Within t) : u.AgreesBelow o o' :=
  fun w hw => h w (hw.trans hu)

theorem mem_held_of_getElem? (h : t.elements[i]? = some (.tree u)) : u ∈ t.held :=
  List.mem_flatMap.2 ⟨_, List.mem_of_getElem? h, by simp⟩

theorem mem_held_of_getElem?_list {us : List ParseTree} (h : t.elements[i]? = some (.list us))
    (hu : u ∈ us) : u ∈ t.held :=
  List.mem_flatMap.2 ⟨_, List.mem_of_getElem? h, by simpa using hu⟩

theorem head?_rest_cursor :
    (t.cursor i).rest.head? = t.elements[i]?.map (Element.map draft) := by
  simp [cursor, Cursor.onto, List.head?_drop]

theorem cursor_succ : { t.cursor i with index := i + 1, rest := (t.cursor i).rest.tail } =
    t.cursor (i + 1) := by
  simp [cursor, Cursor.onto, List.map_drop]

theorem unwrapped_draft (t : ParseTree) : t.draft.unwrapped = t.unwrapped.draft := by
  fun_induction unwrapped t with
  | case1 u es ih =>
    rw [← ih, draft, Tree.annotate_node]
    simp only [List.map_cons, Element.map, Draft.unwrapped]
    rfl
  | case2 t hwrapper =>
    obtain ⟨p, es⟩ := t
    rw [draft, Tree.annotate_node, Draft.unwrapped]
    intro _ _ _ h
    injection h with hp hes
    obtain _ | ⟨⟨u⟩ | _ | _, es⟩ := es <;> simp_all [Element.map]

theorem build_eq_read (t : ParseTree) : t.build = t.draft.read (Reading.rule t.label) := by
  obtain ⟨p, es⟩ := t
  simp [build_node, construct, Draft.read]

end ParseTree

namespace Reading

open ParseTree

variable {α β : Type} {o o' : BuildOptions} {t u : ParseTree} {i : Nat}

/-- All runs of a step agree that takes up the reading of `t` at the element of index `i`: the first
runs, with the options `o`, of `r`, and the second ones, with `o'`, of `r'`. If they do not fail,
their results are related by `Q`, which also says how far the tree has been read by then. -/
def Agree (o o' : BuildOptions) (t : ParseTree) (i : Nat) (Q : α → α → Nat → Prop)
    (r r' : Reading α) : Prop :=
  BuildM.Agree o o' (t.Explains o)
    (fun x x' => ∃ j, x.2 = t.cursor j ∧ x'.2 = t.cursor j ∧ Q x.1 x'.1 j)
    (r.run (t.cursor i)) (r'.run (t.cursor i))

section Rules

variable {P Q : α → α → Nat → Prop} {S : β → β → Nat → Prop} {r r' : Reading α}

theorem agree_pure {a a' : α} (h : Q a a' i) : Agree o o' t i Q (pure a) (pure a') :=
  .pure ⟨i, rfl, rfl, h⟩

theorem agree_bind {f f' : α → Reading β} (hr : Agree o o' t i P r r')
    (hf : ∀ a a' j, P a a' j → Agree o o' t j S (f a) (f' a')) :
    Agree o o' t i S (r >>= f) (r' >>= f') := by
  unfold Agree
  rw [StateT.run_bind, StateT.run_bind]
  refine BuildM.Agree.bind hr ?_
  rintro ⟨a, _⟩ ⟨a', _⟩ ⟨j, rfl, rfl, ha⟩
  exact hf a a' j ha

theorem agree_mono (h : Agree o o' t i P r r') (hPQ : ∀ a a' j, P a a' j → Q a a' j) :
    Agree o o' t i Q r r' :=
  BuildM.Agree.mono h (fun _ => id) fun _ _ ⟨j, hx, hx', ha⟩ => ⟨j, hx, hx', hPQ _ _ j ha⟩

theorem agree_map {f : α → β} (h : Agree o o' t i P r r')
    (hf : ∀ a a' j, P a a' j → S (f a) (f a') j) : Agree o o' t i S (f <$> r) (f <$> r') := by
  rw [map_eq_pure_bind, map_eq_pure_bind]
  exact agree_bind h fun a a' j ha => agree_pure (hf a a' j ha)

theorem agree_throw {e : BuildError} (h : t.Explains o e) :
    Agree o o' t i Q (throw e) (throw e) := by
  change BuildM.Agree o o' _ _ (throw e >>= fun a => pure (a, t.cursor i))
    (throw e >>= fun a => pure (a, t.cursor i))
  exact .bind (R := fun _ _ => False) (.throw h) nofun

theorem agree_fail {d : Defect} (h : t.HasDefect o d) : Agree o o' t i Q (fail d) (fail d) := by
  unfold Agree
  rw [run_fail]
  exact .throw ⟨t, .refl, rfl, h⟩

theorem agree_get : Agree o o' t i (fun c c' j => c = t.cursor i ∧ c' = t.cursor i ∧ j = i)
    get get :=
  .pure ⟨i, rfl, rfl, rfl, rfl, rfl⟩

theorem agree_options : Agree o o' t i (fun a a' j => a = o ∧ a' = o' ∧ j = i) read read := by
  change BuildM.Agree o o' _ _ (read >>= fun a => pure (a, t.cursor i))
    (read >>= fun a => pure (a, t.cursor i))
  refine .bind .options ?_
  rintro a a' ⟨rfl, rfl⟩
  exact .pure ⟨i, rfl, rfl, rfl, rfl, rfl⟩

theorem agree_lift {R : α → α → Prop} {x x' : BuildM α}
    (h : BuildM.Agree o o' (t.Explains o) R x x') :
    Agree o o' t i (fun a a' j => R a a' ∧ j = i) (monadLift x) (monadLift x') := by
  unfold Agree
  rw [StateT.run_monadLift, StateT.run_monadLift]
  exact .bind h fun a a' ha => .pure ⟨i, rfl, rfl, ha, rfl⟩

/-- Reading all of a tree starts at its first element. -/
theorem Agree.read (h : Agree o o' t 0 Q r r') :
    BuildM.Agree o o' (t.Explains o) (fun a a' => ∃ k, Q a a' k) (t.draft.read r)
      (t.draft.read r') := by
  have hread : ∀ r : Reading α, t.draft.read r = Prod.fst <$> r.run (t.cursor 0) := by
    intro r
    simp [Draft.read, Reading.of, cursor, Cursor.onto]
  rw [hread, hread, map_eq_pure_bind, map_eq_pure_bind]
  refine .bind h ?_
  rintro _ _ ⟨k, -, -, hQ⟩
  exact .pure ⟨k, hQ⟩

/-- The reading of `t` may read a tree below. -/
theorem agree_read (hu : u.Within t) (h : Agree o o' u 0 Q r r') :
    Agree o o' t i (fun a a' j => (∃ k, Q a a' k) ∧ j = i) (monadLift (u.draft.read r))
      (monadLift (u.draft.read r')) :=
  agree_lift (BuildM.Agree.mono h.read (fun _ he => he.of_within hu) fun _ _ => id)

/-! ## Single elements -/

theorem agree_take {pick : Element Draft → Option α} {defect : Nat → Defect}
    (hdefect : (∀ e, t.elements[i]? = some e → pick (e.map draft) = none) →
      t.HasDefect o (defect i)) :
    Agree o o' t i (fun a a' j => a = a' ∧ j = i + 1 ∧
      ∃ e, t.elements[i]? = some e ∧ pick (e.map draft) = some a)
      (take pick defect) (take pick defect) := by
  unfold Agree
  rw [run_take, head?_rest_cursor]
  cases he : t.elements[i]? with
  | none => exact .throw ⟨t, .refl, rfl, hdefect (by simp [he])⟩
  | some e =>
    cases ha : pick (e.map draft) with
    | none =>
      simp only [Option.map_some, Option.bind_some, ha]
      exact .throw ⟨t, .refl, rfl, hdefect (by simp [he, ha])⟩
    | some a =>
      simp only [Option.map_some, Option.bind_some, ha]
      exact .pure ⟨i + 1, cursor_succ, cursor_succ, rfl, rfl, e, rfl, ha⟩

theorem agree_token : Agree o o' t i (fun text text' j => text = text' ∧ j = i + 1 ∧
    t.elements[i]? = some (.token text)) token token := by
  refine agree_mono (agree_take fun h text htext => ?_) ?_
  · simpa using h _ htext
  · rintro text text' j ⟨rfl, rfl, e, he, htext⟩
    obtain rfl : e = .token text := by simpa using htext
    exact ⟨rfl, rfl, he⟩

theorem agree_list : Agree o o' t i (fun ds ds' j => ds = ds' ∧ j = i + 1 ∧
    ∃ us, t.elements[i]? = some (.list us) ∧ ds = us.map draft) list list := by
  refine agree_mono (agree_take fun h us hus => ?_) ?_
  · simpa [Element.list?, Element.map] using h _ hus
  · rintro ds ds' j ⟨rfl, rfl, e, he, hds⟩
    obtain ⟨us, rfl, rfl⟩ : ∃ us, e = .list us ∧ us.map draft = ds := by simpa using hds
    exact ⟨rfl, rfl, us, he, rfl⟩

theorem agree_element : Agree o o' t i (fun d d' j => d = d' ∧ j = i + 1 ∧
    ∃ e, t.elements[i]? = some e ∧ d = e.map draft) element element := by
  refine agree_mono (agree_take fun h u hu => ?_) ?_
  · simpa using h _ hu
  · rintro d d' j ⟨rfl, rfl, e, he, hd⟩
    exact ⟨rfl, rfl, e, he, by simpa [eq_comm] using hd⟩

theorem agree_node {expected : List Production} :
    Agree o o' t i (fun d d' j => d = d' ∧ j = i + 1 ∧
      ∃ u : ParseTree, t.elements[i]? = some (.tree u) ∧ d = u.draft ∧
        (expected = [] ∨ u.label ∈ expected)) (node expected) (node expected) := by
  have htree : Agree o o' t i (fun d d' j => d = d' ∧ j = i + 1 ∧
      ∃ u : ParseTree, t.elements[i]? = some (.tree u) ∧ d = u.draft)
      (take Element.tree? (.expectedNode · expected))
      (take Element.tree? (.expectedNode · expected)) := by
    refine agree_mono (agree_take fun h u hu => ?_) ?_
    · simpa using h _ hu
    · rintro d d' j ⟨rfl, rfl, e, he, hd⟩
      obtain ⟨u, rfl, rfl⟩ : ∃ u : ParseTree, e = .tree u ∧ u.draft = d := by
        simpa using hd
      exact ⟨rfl, rfl, u, he, rfl⟩
  refine agree_bind agree_get ?_
  rintro _ _ _ ⟨rfl, rfl, rfl⟩
  refine agree_bind htree ?_
  rintro _ _ _ ⟨rfl, rfl, u, hu, rfl⟩
  rw [production_draft]
  split
  · rename_i hlabel
    exact agree_pure ⟨rfl, rfl, u, hu, rfl, hlabel⟩
  · rename_i hlabel
    rw [not_or] at hlabel
    exact agree_fail ⟨hlabel.1, hlabel.2, u, hu, rfl⟩

theorem agree_skip (count : Nat) :
    Agree o o' t i (fun _ _ j => j = i + count) (skip count) (skip count) := by
  induction count generalizing i with
  | zero => exact agree_pure rfl
  | succ count ih =>
    refine agree_bind agree_element ?_
    rintro _ _ _ ⟨rfl, rfl, -⟩
    exact agree_mono ih fun _ _ _ hj => by omega

theorem agree_finish :
    Agree o o' t i (fun _ _ j => j = i ∧ t.elements.length ≤ i) finish finish := by
  unfold Agree
  rw [run_finish]
  split
  · rename_i hrest
    exact .pure ⟨i, rfl, rfl, rfl, by simpa [cursor, Cursor.onto] using hrest⟩
  · rename_i hrest
    have hi : i < t.elements.length := by simpa [cursor, Cursor.onto] using hrest
    exact .throw ⟨t, .refl, rfl, hi⟩

/-! ## Optional and repeated elements -/

theorem agree_ifNext {p : Element Draft → Bool} (h : Agree o o' t i Q r r') :
    Agree o o' t i (fun b b' j => (∃ a a', b = some a ∧ b' = some a' ∧ Q a a' j) ∨
      b = none ∧ b' = none ∧ j = i) (ifNext p r) (ifNext p r') := by
  unfold Agree
  rw [run_ifNext, run_ifNext]
  split
  · refine .bind h ?_
    rintro ⟨a, _⟩ ⟨a', _⟩ ⟨j, rfl, rfl, ha⟩
    exact .pure ⟨j, rfl, rfl, .inl ⟨a, a', rfl, rfl, ha⟩⟩
  · exact .pure ⟨i, rfl, rfl, .inr ⟨rfl, rfl, rfl⟩⟩

/-- A step that takes one element, repeated for all that are left. -/
theorem agree_forEachLeft {f : α → β} (hi : i ≤ t.elements.length)
    (h : ∀ j, Agree o o' t j (fun a a' k => f a = f a' ∧ k = j + 1) r r') :
    Agree o o' t i (fun as as' j => as.map f = as'.map f ∧ j = t.elements.length)
      (forEachLeft r) (forEachLeft r') := by
  -- How often the step is taken is settled before the first time, by the elements that are left.
  have hloop : ∀ ds : List (Element Draft), ∀ i, i + ds.length = t.elements.length →
      Agree o o' t i (fun as as' j => as.map f = as'.map f ∧ j = t.elements.length)
        (ds.mapM fun _ => r) (ds.mapM fun _ => r') := by
    intro ds
    induction ds with
    | nil =>
      intro i hi
      exact agree_pure ⟨rfl, hi⟩
    | cons d ds ih =>
      intro i hi
      rw [List.mapM_cons, List.mapM_cons]
      refine agree_bind (h i) ?_
      rintro a a' _ ⟨ha, rfl⟩
      refine agree_bind (ih (i + 1) (by simp at hi; omega)) ?_
      rintro as as' j ⟨has, rfl⟩
      exact agree_pure ⟨by simp [ha, has], rfl⟩
  unfold Agree
  rw [run_forEachLeft, run_forEachLeft]
  exact hloop _ i (by simp [cursor, Cursor.onto]; omega)

/-! ## Nodes in their places -/

section Places

variable {slot : Slot α} {erase : α → α}

/-- The tree is built by itself, however many numbers have been drawn, to a node that becomes `a` in
this place, but for names. -/
def BuildsTo (o : BuildOptions) (slot : Slot α) (erase : α → α) (u : ParseTree) (a : α) : Prop :=
  ∀ drawn, ∃ n drawn', u.build.runFrom o drawn = (.ok n, drawn') ∧
    (slot.accept n).map erase = some (erase a)

theorem Slot.Erases.map_accept (h : slot.Erases erase) {n n' : Node}
    (hn : n.nameless = n'.nameless) :
    (slot.accept n).map erase = (slot.accept n').map erase := by
  rw [← h, ← h, hn]

theorem agree_fit (hslot : slot.IsPlace) (herase : slot.Erases erase) (hu : u ∈ t.held)
    (h : u.Agrees o o') :
    Agree o o' t i (fun a a' j => erase a = erase a' ∧ j = i ∧ BuildsTo o slot erase u a)
      (fit slot u.draft) (fit slot u.draft) := by
  unfold Agree
  rw [run_fit]
  have hbuild := BuildM.Agree.mono h.succeeds (fun e he => he.of_within (within_of_mem_held hu))
    fun _ _ => id
  refine .bind hbuild ?_
  rintro n n' ⟨hn, hall⟩
  have haccept := Slot.Erases.map_accept herase hn
  cases ha : slot.accept n with
  | some a =>
    obtain ⟨a', ha', haa'⟩ : ∃ a', slot.accept n' = some a' ∧ erase a' = erase a := by
      simpa [ha] using haccept.symm
    rw [ha']
    refine .pure ⟨i, rfl, rfl, haa'.symm, rfl, fun drawn => ?_⟩
    obtain ⟨m, drawn', hm, hmn⟩ := hall drawn
    exact ⟨m, drawn', hm, by simp [Slot.Erases.map_accept herase hmn, ha', haa']⟩
  | none =>
    have ha' : slot.accept n' = none := by simpa [ha] using haccept.symm
    rw [ha']
    refine .throw ⟨t, .refl, rfl, u, hu, α, slot, hslot, rfl, fun drawn => ?_⟩
    obtain ⟨m, drawn', hm, hmn⟩ := hall drawn
    refine ⟨m, drawn', hm, ?_, ?_⟩
    · rw [production_eq hm, unwrapped_draft, production_draft]
    · simpa [ha'] using Slot.Erases.map_accept herase hmn

/-- The trees that `t` holds can be built as `Agrees` says. -/
theorem agree_mapM_fit (hslot : slot.IsPlace) (herase : slot.Erases erase) {us : List ParseTree}
    (hus : ∀ u ∈ us, u ∈ t.held ∧ u.Agrees o o') :
    Agree o o' t i (fun as as' j => as.map erase = as'.map erase ∧ j = i ∧
        List.Forall₂ (BuildsTo o slot erase) us as)
      ((us.map draft).mapM (fit slot)) ((us.map draft).mapM (fit slot)) := by
  induction us with
  | nil => exact agree_pure ⟨rfl, rfl, .nil⟩
  | cons u us ih =>
    rw [List.forall_mem_cons] at hus
    rw [List.map_cons, List.mapM_cons]
    refine agree_bind (agree_fit hslot herase hus.1.1 hus.1.2) ?_
    rintro a a' _ ⟨ha, rfl, hbuild⟩
    refine agree_bind (ih hus.2) ?_
    rintro as as' _ ⟨has, rfl, hbuilds⟩
    exact agree_pure ⟨by simp [ha, has], rfl, .cons hbuild hbuilds⟩

theorem agree_next (hslot : slot.IsPlace) (herase : slot.Erases erase)
    (h : ∀ u ∈ t.held, u.Agrees o o') :
    Agree o o' t i (fun a a' j => erase a = erase a' ∧ j = i + 1) (next slot) (next slot) := by
  refine agree_bind agree_node ?_
  rintro _ _ _ ⟨rfl, rfl, u, hu, rfl, -⟩
  have hheld := mem_held_of_getElem? hu
  exact agree_mono (agree_fit hslot herase hheld (h u hheld)) fun _ _ _ ⟨ha, hj, _⟩ => ⟨ha, hj⟩

theorem agree_value (h : ∀ u ∈ t.held, u.Agrees o o') :
    Agree o o' t i (fun v v' j => v = v' ∧ j = i + 1) value value := by
  refine agree_bind agree_get ?_
  rintro _ _ _ ⟨rfl, rfl, rfl⟩
  refine agree_bind agree_element ?_
  rintro _ _ _ ⟨rfl, rfl, e, he, rfl⟩
  cases e with
  | token text => exact agree_pure ⟨rfl, rfl⟩
  | tree u =>
    have hu := mem_held_of_getElem? he
    exact agree_mono (agree_fit .value Slot.erases_value hu (h u hu))
      fun _ _ _ ⟨hv, hj, _⟩ => ⟨hv, hj⟩
  | list us => exact agree_fail fun u hu => nomatch he.symm.trans hu

end Places

end Rules

end Reading

end AsnModel
