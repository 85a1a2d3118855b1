import AsnModel.Text.Quoted
import AsnModel.Tree.Basic

/-!
# The outline of a parse tree

An outline shows every item of a tree on a line of its own, in pre-order: a node under the name of
its production, a list under `[list]`, a token in quotes. Guides in front of the headers connect
each item to the one it belongs to.

The guides are collected on the way down. Whatever writes an item has two texts, one to put in front
of its header and one to begin the lines below the header with.

## Main definitions

* `TreeItem` — anything that has a line of its own.
* `TreeFormatter` — an item that is to be written, with the texts in front of its lines.
* `TreeFormatter.text` — what is written of it.
* `ParseTree.outlineHiding`, `ParseTree.outline` — the outline, for any set of characters that do
  not show, and for the characters that are unprintable.
-/

namespace AsnModel

/-- Anything that an outline shows on a line of its own. -/
inductive TreeItem where
  | node (t : ParseTree)
  | element (e : Element ParseTree)

/-- An item that is to be written. -/
structure TreeFormatter where
  item : TreeItem
  /-- What stands in front of the header. -/
  lead : String
  /-- What the lines below the header begin with. -/
  below : String

namespace TreeFormatter

/-- The formatters of the children of an item. A vertical guide runs down to the last child and no
further. -/
def children (f : TreeFormatter) (items : List TreeItem) : List TreeFormatter :=
  match items.getLast? with
  | none => []
  | some last =>
    items.dropLast.map (fun item => ⟨item, f.below ++ "|-- ", f.below ++ "|   "⟩) ++
      [⟨last, f.below ++ "`-- ", f.below ++ "    "⟩]

theorem children_cons (f : TreeFormatter) (item : TreeItem) (items : List TreeItem) :
    f.children (item :: items) =
      ⟨item, f.below ++ (if items = [] then "`-- " else "|-- "),
        f.below ++ if items = [] then "    " else "|   "⟩ :: f.children items := by
  cases items <;> simp [children, List.getLast?_cons]

theorem item_mem_of_mem_children {f c : TreeFormatter} {items : List TreeItem}
    (h : c ∈ f.children items) : c.item ∈ items := by
  induction items with
  | nil => simp [children] at h
  | cons item items ih =>
    rw [children_cons] at h
    rcases List.mem_cons.1 h with rfl | h
    · exact List.mem_cons_self
    · exact List.mem_cons_of_mem _ (ih h)

/-- A header line, and below it what is written of the children. -/
def branch (header : String) (children : List String) : String :=
  if children = [] then header ++ " (empty)\n" else header ++ "\n" ++ String.join children

/-- A child of a node is smaller than the node. -/
theorem sizeOf_lt_of_node {f c : TreeFormatter} {t : ParseTree} (hitem : f.item = .node t)
    (h : c ∈ f.children (t.elements.map .element)) : sizeOf c.item < sizeOf f.item := by
  obtain ⟨e, he, heq⟩ := List.mem_map.1 (item_mem_of_mem_children h)
  obtain ⟨p, es⟩ := t
  have hlt := List.sizeOf_lt_of_mem (show e ∈ es from he)
  rw [← heq, hitem]
  simp only [TreeItem.node.sizeOf_spec, TreeItem.element.sizeOf_spec, Tree.node.sizeOf_spec]
  omega

/-- A child of a list is smaller than the list. -/
theorem sizeOf_lt_of_list {f c : TreeFormatter} {ts : List ParseTree}
    (hitem : f.item = .element (.list ts)) (h : c ∈ f.children (ts.map .node)) :
    sizeOf c.item < sizeOf f.item := by
  obtain ⟨t, ht, heq⟩ := List.mem_map.1 (item_mem_of_mem_children h)
  have hlt := List.sizeOf_lt_of_mem ht
  rw [← heq, hitem]
  simp only [TreeItem.node.sizeOf_spec, TreeItem.element.sizeOf_spec, Element.list.sizeOf_spec]
  omega

variable (hidden : Char → Bool)

/-- What is written of an item, in which the characters in `hidden` are escaped. An element that is
a tree is written as the tree, by a formatter that has nothing left to put in front. -/
def text (f : TreeFormatter) : String :=
  f.lead ++
    match _ : f.item with
    | .node t =>
      branch (t.label.name ++ ":")
        ((f.children (t.elements.map .element)).attach.map fun ⟨c, _⟩ => c.text)
    | .element (.tree t) => text ⟨.node t, "", f.below⟩
    | .element (.token value) => Text.quote hidden value ++ "\n"
    | .element (.list ts) =>
      branch "[list]" ((f.children (ts.map .node)).attach.map fun ⟨c, _⟩ => c.text)
termination_by sizeOf f.item
decreasing_by
  · exact sizeOf_lt_of_node ‹_› ‹_›
  · rw [‹f.item = _›]
    decreasing_tactic
  · exact sizeOf_lt_of_list ‹_› ‹_›

variable (lead below : String)

theorem text_node (t : ParseTree) :
    text hidden ⟨.node t, lead, below⟩ =
      lead ++ branch (t.label.name ++ ":")
        ((children ⟨.node t, lead, below⟩ (t.elements.map .element)).map (text hidden)) := by
  rw [text]
  simp

theorem text_tree (t : ParseTree) :
    text hidden ⟨.element (.tree t), lead, below⟩ = lead ++ text hidden ⟨.node t, "", below⟩ := by
  rw [text]

theorem text_token (value : String) :
    text hidden ⟨.element (.token value), lead, below⟩ =
      lead ++ (Text.quote hidden value ++ "\n") := by
  rw [text]

theorem text_list (ts : List ParseTree) :
    text hidden ⟨.element (.list ts), lead, below⟩ =
      lead ++ branch "[list]"
        ((children ⟨.element (.list ts), lead, below⟩ (ts.map .node)).map (text hidden)) := by
  rw [text]
  simp

end TreeFormatter

namespace ParseTree

/-- The outline of a tree, in which the characters in `hidden` are escaped; every line ends with a
line feed. -/
def outlineHiding (hidden : Char → Bool) (t : ParseTree) : String :=
  TreeFormatter.text hidden ⟨.node t, "", ""⟩

/-- The outline of a tree. -/
def outline (t : ParseTree) : String := t.outlineHiding Text.isUnprintable

end ParseTree

end AsnModel
