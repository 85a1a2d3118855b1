import AsnModel.Proofs.Build.Numbering
import AsnModel.Proofs.Build.Yields
import AsnModel.Proofs.Model.MemberNames

/-!
# The walk of a parse tree

Building keeps the order of a parse tree. The nodes of a model, taken in pre-order, are those that a
walk of the parse tree comes across, with the same productions and the same names: nothing is lost,
added, repeated or moved.

## Main definitions

* `ParseTree.walk` — the productions and names of a parse tree in pre-order. Parts of the syntax
  that have no node in the model, such as wrappers, tags and identifiers, are passed over.
* `ParseTree.naming` — how a tree is named, if it is a member.
* `Node.outline` — the productions and names of a model in pre-order.
* `ParseTree.Becomes` — the node of a model that an item of a walk becomes.
-/

namespace AsnModel

namespace ParseTree

/-! ## Walking a parse tree -/

/-- What the list of assignments in the body of a module holds. -/
def moduleParts : ParseTree → List ParseTree
  | .node _ [_, _, _, _, _,
      .tree (.node .moduleBody [_, _, .tree (.node .assignmentList es)]), _] =>
    es.flatMap Element.trees
  | _ => []

/-- The type of a named type, behind its identifier. -/
def memberParts (t : ParseTree) : List ParseTree := t.held.filter fun u => u.label ≠ .identifier

/-- The type of a component in one of its four forms, and the default value if there is one. -/
def componentParts : ParseTree → List ParseTree
  | .node .componentTypeOptional [.tree m] => memberParts m
  | .node .componentTypeDefault [.tree m, e] => memberParts m ++ e.trees
  | .node .componentTypeComponentsOf es => es.flatMap Element.trees
  | t => t.memberParts

/-- The trees that a walk goes on to, in order. -/
def visited (t : ParseTree) : List ParseTree :=
  match t.label with
  | .type => t.first?.toList
  | .moduleDefinition => t.moduleParts
  | .taggedType => t.held.filter fun u => u.label ≠ .tag
  | .componentType => t.held.flatMap componentParts
  | .namedType => t.memberParts
  | .referencedType | .referencedValue | .namedValue | .extensionMarker => []
  | _ => t.held

/-- What a tree adds to the walk by itself: its production, and the name that it defines or refers
to. A generic type wrapper adds nothing. -/
def ownItem? (t : ParseTree) : Option (Production × Option String) :=
  match t.label with
  | .type => none
  | .typeAssignment | .valueAssignment | .referencedType | .referencedValue | .nameForm =>
    some (t.label, t.elements.findSome? Element.token?)
  | p => some (p, none)

theorem sizeOf_lt_of_mem_memberParts {t u : ParseTree} (h : u ∈ t.memberParts) :
    sizeOf u < sizeOf t :=
  sizeOf_lt_of_mem_held (List.mem_of_mem_filter h)

theorem sizeOf_lt_of_mem_moduleParts {t u : ParseTree} (h : u ∈ t.moduleParts) :
    sizeOf u < sizeOf t := by
  unfold moduleParts at h
  split at h
  · have := sizeOf_lt_of_mem_held (t := .node .assignmentList _) h
    simp at *; omega
  · simp at h

theorem sizeOf_lt_of_mem_componentParts {t u : ParseTree} (h : u ∈ t.componentParts) :
    sizeOf u < sizeOf t := by
  unfold componentParts at h
  split at h
  · have := sizeOf_lt_of_mem_memberParts h
    simp; omega
  · rcases List.mem_append.1 h with h | h
    · have := sizeOf_lt_of_mem_memberParts h
      simp; omega
    · exact sizeOf_lt_of_mem_held (by simp [held, h])
  · exact sizeOf_lt_of_mem_held h
  · exact sizeOf_lt_of_mem_memberParts h

theorem sizeOf_lt_of_mem_visited {t u : ParseTree} (h : u ∈ t.visited) : sizeOf u < sizeOf t := by
  unfold visited at h
  split at h
  · refine sizeOf_lt_of_mem_held ?_
    obtain ⟨l, _ | ⟨e | e | e, es⟩⟩ := t <;> simp_all [Tree.first?, held]
  · exact sizeOf_lt_of_mem_moduleParts h
  · exact sizeOf_lt_of_mem_held (List.mem_of_mem_filter h)
  · obtain ⟨c, hc, hu⟩ := List.mem_flatMap.1 h
    exact Nat.lt_trans (sizeOf_lt_of_mem_componentParts hu) (sizeOf_lt_of_mem_held hc)
  · exact sizeOf_lt_of_mem_memberParts h
  all_goals first | exact sizeOf_lt_of_mem_held h | simp at h

/-- The productions and names of a parse tree, in pre-order. -/
def walk (t : ParseTree) : List (Production × Option String) :=
  t.ownItem?.toList ++ t.visited.attach.flatMap fun ⟨u, _⟩ => u.walk
termination_by sizeOf t
decreasing_by exact sizeOf_lt_of_mem_visited ‹_›

theorem walk_eq (t : ParseTree) : t.walk = t.ownItem?.toList ++ t.visited.flatMap walk := by
  rw [walk]
  simp

end ParseTree

/-! ## Names of members -/

/-- How an item of a walk is named, as a member. -/
inductive Naming where
  /-- It is not a member. -/
  | noMember
  /-- It is a member without an identifier. -/
  | anonymous
  /-- It is a member with this identifier. -/
  | identifier (name : String)
deriving DecidableEq

/-- What an item of a walk is named after `s` numbers, and how many numbers have been drawn by
then. -/
inductive Naming.Takes (stem : String) : Naming → Nat → Option String → Nat → Prop where
  | noMember (s : Nat) : Takes stem .noMember s none s
  | anonymous (s : Nat) :
    Takes stem .anonymous s (some (BuildM.placeholderName stem (s + 1))) (s + 1)
  | identifier (name : String) (s : Nat) : Takes stem (.identifier name) s (some name) s

namespace ParseTree

/-- How a named type names its member. The first element is either its identifier or its type. -/
def memberNaming : ParseTree → Naming
  | .node _ (.tree (.node .type _) :: _) => .anonymous
  | .node _ (.tree (.node .identifier (.token name :: _)) :: _) => .identifier name
  | _ => .noMember

/-- How a tree is named, as a member: a named type of its own, or one that stands in a component in
one of its forms. -/
def naming : ParseTree → Naming
  | .node .namedType es => memberNaming (.node .namedType es)
  | .node .componentType [.tree (.node .namedType es)] => memberNaming (.node .namedType es)
  | .node .componentType [.tree (.node .componentTypeOptional (.tree m :: _))] => memberNaming m
  | .node .componentType [.tree (.node .componentTypeDefault (.tree m :: _))] => memberNaming m
  | _ => .noMember

end ParseTree

/-! ## Models in the order of their parse trees -/

/-- The productions and names of a model, in pre-order. -/
def Node.outline (n : Node) : List (Production × Option String) :=
  (n :: n.descendants).map fun d => (d.production, d.referenceName?)

theorem Node.outline_eq (n : Node) :
    n.outline = (n.production, n.referenceName?) :: n.children.flatMap outline := by
  rw [outline, descendants_eq, List.map_cons, List.map_flatMap]
  rfl

namespace ParseTree

open Reading

variable {α : Type} {o : BuildOptions} {s s' : Nat} {t : ParseTree} {n : Node}

section Becomes

variable (o)

/-- The node of a model that an item of a walk becomes. Most are built from it. A range is read in
its place, and a named value may be numbered afterwards. -/
inductive Becomes : ParseTree → Nat → Node → Nat → Prop where
  | built {t : ParseTree} {s s' : Nat} {n : Node} (h : t.build.Gives o s n s') : Becomes t s n s'
  | range {bs : List (Element ParseTree)} {s s' : Nat} {b : Bounds}
      (h : YieldsBounds o bs s b s') : Becomes (.node .constraint bs) s (.constraint b) s'
  | numbered {t : ParseTree} {s s' : Nat} {identifier number : String} {value : Option String}
      (h : t.build.Gives o s (.namedValue identifier value) s') :
    Becomes t s (.namedValue identifier (some number)) s'

/-- One step of a walk. A wrapper becomes what it wraps. Any other tree becomes a node of its own,
and then the trees that the walk goes on to become the children of the node. -/
inductive Steps (t : ParseTree) (s : Nat) (n : Node) (s' : Nat) : Prop where
  | wrapper {u : ParseTree} (hvisited : t.visited = [u]) (hitem : t.ownItem? = none)
      (hu : u.Becomes o s n s')
  | node {s₁ : Nat} (hitem : t.ownItem? = some (n.production, n.referenceName?))
      (hname : t.naming.Takes o.stem s n.memberName? s₁)
      (hchildren : Threads (Becomes o) t.visited s₁ n.children s')

end Becomes

theorem Steps.of_noMember (hitem : t.ownItem? = some (n.production, n.referenceName?))
    (hnaming : t.naming = .noMember) (hname : n.memberName? = none)
    (hchildren : Threads (Becomes o) t.visited s n.children s') : t.Steps o s n s' :=
  .node hitem (by rw [hnaming, hname]; exact .noMember s) hchildren

theorem Becomes.threads (h : t.Becomes o s n s') : Threads (Becomes o) [t] s [n] s' :=
  .cons h (.nil s')

/-! ## Parts that are read -/

theorem becomes_slots {slot : Slot α} {node : α → Node} {ts : List ParseTree} {as : List α}
    (hslot : ∀ n a, slot.accept n = some a → n = node a)
    (h : Threads (BuildsAs slot o) ts s as s') : Threads (Becomes o) ts s (as.map node) s' :=
  h.map fun _ _ _ _ ⟨_, hn, haccept⟩ => .built (hslot _ _ haccept ▸ hn)

theorem becomes_value {e : Element ParseTree} {v : Value} (h : e.BuildsValue o s v s') :
    Threads (Becomes o) e.trees s v.node?.toList s' := by
  cases e with
  | token text =>
    obtain ⟨rfl, rfl⟩ := h
    exact .nil _
  | tree t =>
    obtain ⟨n, hn, hv⟩ := h
    rw [Slot.accept_value_iff] at hv
    simpa [hv] using (Becomes.built hn).threads
  | list ts => exact h.elim

theorem becomes_bounds {bs : List (Element ParseTree)} {b : Bounds}
    (h : YieldsBounds o bs s b s') : Threads (Becomes o) (bs.flatMap Element.trees) s
      (b.min.node?.toList ++ b.max.node?.toList) s' := by
  obtain ⟨hlo, hhi⟩ := h
  simpa using (becomes_value hlo).append (becomes_value hhi)

/-- The identifier of a member is there before its type. -/
theorem becomes_member {ms : List (Element ParseTree)} {identifier : String} {type : TypeDecl}
    (h : YieldsMember o ms s identifier type s') :
    ∃ s₁, (memberNaming (.node .namedType ms)).Takes o.stem s (some identifier) s₁ ∧
      Threads (Becomes o) (memberParts (.node .namedType ms)) s₁ [.type type] s' := by
  cases h with
  | @anonymous es _ _ _ _ ht =>
    refine ⟨s + 1, .anonymous s, ?_⟩
    simpa [memberParts, held] using (Becomes.built ht).threads
  | @named _ es u _ _ _ ht =>
    have hlabel : u.label ≠ .identifier := label_ne_of_gives rfl ht
    refine ⟨s, .identifier identifier s, ?_⟩
    simpa [memberParts, held, hlabel] using (Becomes.built ht).threads

theorem becomes_numbered {ts : List ParseTree} {items : List (ListItem (Option String))}
    {numbered : List (ListItem String)} (hts : Threads (BuildsAs .listItem o) ts s items s')
    (h : numberItems items = .ok numbered) :
    Threads (Becomes o) ts s (numbered.map fun item => (item.map some).node) s' := by
  have herase := map_numberItemsAfter h
  clear h
  induction hts generalizing numbered with
  | nil =>
    obtain rfl : numbered = [] := by simpa using herase
    exact .nil _
  | @cons _ _ item _ _ _ _ head _ ih =>
    obtain _ | ⟨item', numbered⟩ := numbered
    · simp at herase
    · obtain ⟨hitem, herase⟩ := List.cons.inj herase
      obtain ⟨n, hn, haccept⟩ := head
      rw [Slot.accept_listItem_iff] at haccept
      subst haccept
      refine .cons ?_ (ih herase)
      cases item <;> cases item' <;> simp [ListItem.map] at hitem
      · subst hitem
        exact .numbered hn
      · exact .built hn

/-! ## One step of a walk -/

theorem steps_of_gives (h : t.build.Gives o s n s') : t.Steps o s n s' := by
  cases yields_of_gives h with
  | wrapper ht => exact .wrapper rfl rfl (.built ht)
  | module has =>
    refine .of_noMember rfl rfl rfl ?_
    simpa [visited, moduleParts, Node.children, List.flatMap_map] using
      becomes_slots (fun _ _ => Slot.accept_assignment_iff.1) has
  | typeAssignment ht => exact .of_noMember rfl rfl rfl (Becomes.built ht).threads
  | valueAssignment ht he =>
    refine .of_noMember rfl rfl rfl ?_
    simpa [visited, held, Node.children] using (Becomes.built ht).threads.append (becomes_value he)
  | @constructed _ kind keyword ms members _ _ hp hms =>
    subst hp
    cases kind <;>
    · refine .of_noMember rfl rfl rfl ?_
      simpa [visited, held, ConstructedKind.production, Node.children, Node.childrenOfType] using
        becomes_slots (fun _ _ => Slot.accept_member_iff.1) hms
  | @collection _ kind es element _ _ hp ht =>
    subst hp
    cases kind <;> exact .of_noMember rfl rfl rfl (Becomes.built ht).threads
  | @sizedCollection _ kind bs es size element _ _ _ hp hbs ht =>
    have hsize := Becomes.built (gives_of_yields (.sizeConstraint hbs))
    subst hp
    cases kind <;> exact .of_noMember rfl rfl rfl (hsize.threads.append (Becomes.built ht).threads)
  | @tagged gs tag u type _ _ hgs ht | @taggedWithKeyword gs tag keyword u type _ _ hgs ht =>
    have hlabel : u.label ≠ .tag := label_ne_of_gives rfl ht
    refine .of_noMember rfl rfl rfl ?_
    simpa [visited, held, hlabel, Node.children, Node.childrenOfType] using
      (Becomes.built ht).threads
  | constrained hbs => exact .of_noMember rfl rfl rfl (Becomes.range hbs).threads
  | valueList hts hnumbered =>
    refine .of_noMember rfl rfl rfl ?_
    simpa [visited, held, Node.children, Node.childrenOfType] using becomes_numbered hts hnumbered
  | bitString hts =>
    refine .of_noMember rfl rfl rfl ?_
    simpa [visited, held, Node.children, Node.childrenOfType] using
      becomes_slots (fun _ _ => Slot.accept_listItem_iff.1) hts
  | sizeConstraint hbs => exact .of_noMember rfl rfl rfl (becomes_bounds hbs)
  | required hms | optional hms =>
    obtain ⟨s₁, hname, htype⟩ := becomes_member hms
    refine .node rfl hname ?_
    simpa [visited, held, componentParts, Node.children, Node.childrenOfComponent,
      Component.type] using htype
  | default hms he =>
    obtain ⟨s₁, hname, htype⟩ := becomes_member hms
    refine .node rfl hname ?_
    simpa [visited, held, componentParts, Node.children, Node.childrenOfComponent] using
      htype.append (becomes_value he)
  | componentsOf ht => exact .of_noMember rfl rfl rfl (Becomes.built ht).threads
  | namedType hms =>
    obtain ⟨s₁, hname, htype⟩ := becomes_member hms
    exact .node rfl hname htype
  | typeReference hes | valueReference hes =>
    cases hes <;> exact .of_noMember rfl rfl rfl (.nil _)
  | objectIdentifier hcs =>
    refine .of_noMember rfl rfl rfl ?_
    simpa [visited, held, Node.children, List.flatMap_map] using
      becomes_slots (fun _ _ => Slot.accept_arc_iff.1) hcs
  | nameAndNumber =>
    exact .of_noMember rfl rfl rfl ((Becomes.built (gives_of_yields .nameForm)).threads.append
      (Becomes.built (gives_of_yields .numberForm)).threads)
  -- What is left has no trees below it that are visited, and no children.
  | _ => exact .of_noMember rfl rfl rfl (.nil _)

theorem steps_of_becomes (h : t.Becomes o s n s') : t.Steps o s n s' := by
  cases h with
  | built h => exact steps_of_gives h
  | range h => exact .of_noMember rfl rfl rfl (becomes_bounds h)
  | numbered h =>
    cases yields_of_gives h with
    | wrapper ht => exact .wrapper rfl rfl (.numbered ht)
    | namedValue | numberedValue => exact .of_noMember rfl rfl rfl (.nil _)

/-- Whatever a tree becomes lies in the order of its walk. -/
theorem walk_eq_outline (t : ParseTree) {o : BuildOptions} {s s' : Nat} {n : Node}
    (h : t.Becomes o s n s') : t.walk = n.outline := by
  rw [walk_eq]
  cases steps_of_becomes h with
  | @wrapper u hvisited hitem hu =>
    have : u ∈ t.visited := by simp [hvisited]
    rw [hvisited, hitem]
    simpa using walk_eq_outline u hu
  | node hitem _ hchildren =>
    rw [hitem, Node.outline_eq,
      hchildren.flatMap_eq fun u hu _ _ _ hbecomes => walk_eq_outline u hbecomes]
    rfl
termination_by sizeOf t
decreasing_by all_goals exact sizeOf_lt_of_mem_visited ‹_›

end ParseTree

/-- Whatever is built, by whichever builder, its nodes in pre-order are those of the walk of its
parse tree: no node and no name is lost, invented, repeated or moved. -/
theorem outline_eq_walk (o : BuildOptions) (drawn drawn' : Nat) (t : ParseTree) (n : Node)
    (h : t.build.runFrom o drawn = (.ok n, drawn')) :
    (n :: n.descendants).map (fun d => (d.production, d.referenceName?)) = t.walk :=
  (t.walk_eq_outline (.built h)).symm

/-- `A ::= SEQUENCE OF M.B`, where the name of the module is passed over. -/
theorem outline_eq_walk_sequenceOf :
    ParseTree.walk (.node .typeAssignment [.token "A", .token "::=", .tree (.node .type [
      .tree (.node .sequenceOfType [.tree (.node .type [.tree (.node .referencedType [
        .tree (.node .moduleReference [.token "M"]), .token "B"])])])])]) =
      [(.typeAssignment, some "A"), (.sequenceOfType, none), (.referencedType, some "B")] := by
  rw [← outline_eq_walk {} 0 0 _
    (.assignment (.type "A" (.collection .sequenceOf none (.reference ⟨some "M", "B"⟩)))) (by rfl)]
  change Node.outline _ = _
  simp [Node.outline_eq, Node.children, Node.childrenOfType, Node.production,
    Node.referenceName?, Assignment.name]

end AsnModel
