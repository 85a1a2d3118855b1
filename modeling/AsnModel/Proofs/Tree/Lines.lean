import AsnModel.Tree.Outline

/-!
# The lines of an outline

The lines of an item can be put together from below: first come those of its children, and then each
of them gets its guide. A formatter goes the other way. It never has the lines of a child in its
hand, but collects all guides that stand in front of them before it comes there. Both give the same
text.

## Main definitions

* `Outline.hang` — put the lines of a group of siblings under their parent.
* `ParseTree.outlineLines`, `ParseTree.elementLines` — the lines of a tree and of an element.
* `TreeItem.lines` — the lines of anything that has a line of its own.
-/

namespace AsnModel

variable {header header' below : String} {item : List String} {items : List (List String)}

namespace Outline

/-- Put a guide in front of each line of an item: one before its header, another before the lines
below the header. -/
def guide (header below : String) : List String → List String
  | [] => []
  | line :: lines => (header ++ line) :: lines.map (below ++ ·)

/-- The lines of a group of siblings, each given by its own lines. A vertical guide runs down to
the last sibling and no further. -/
def hang : List (List String) → List String
  | [] => []
  | [last] => guide "`-- " "    " last
  | item :: items => guide "|-- " "|   " item ++ hang items

/-- The lines of an item that can have children, given by their lines. -/
def branch (header : String) : List (List String) → List String
  | [] => [header ++ " (empty)"]
  | items => header :: hang items

/-- The guides of an item, which is the last one of its siblings or has others behind it. -/
theorem hang_cons (item : List String) (items : List (List String)) : hang (item :: items) =
    guide (if items = [] then "`-- " else "|-- ") (if items = [] then "    " else "|   ") item ++
      hang items := by
  cases items <;> simp [hang]

theorem branch_ne_nil (header : String) (items : List (List String)) :
    branch header items ≠ [] := by
  cases items <;> simp [branch]

/-- A guide in front of everything else is the same as longer guides. -/
theorem guide_append (lead header below : String) (item : List String) :
    guide (lead ++ header) (lead ++ below) item = (guide header below item).map (lead ++ ·) := by
  cases item with
  | nil => rfl
  | cons line lines => simp [guide, String.append_assoc]

/-- What stands before the header stands before everything. -/
theorem join_guide (lead below : String) (hitem : item ≠ []) :
    String.join ((guide lead below item).map (· ++ "\n")) =
      lead ++ String.join ((guide "" below item).map (· ++ "\n")) := by
  cases item with
  | nil => exact absurd rfl hitem
  | cons line lines => simp [guide, String.join_cons, String.append_assoc]

end Outline

open Outline

namespace ParseTree

variable (hidden : Char → Bool)

mutual

/-- The lines of the outline of a tree, without line ends. -/
def outlineLines : ParseTree → List String
  | .node p es => branch (p.name ++ ":") (elementBlocks es)

/-- The lines of each element of a node. -/
def elementBlocks : List (Element (Tree Production)) → List (List String)
  | [] => []
  | e :: es => elementLines e :: elementBlocks es

/-- The lines of one element. -/
def elementLines : Element (Tree Production) → List String
  | .tree t => outlineLines t
  | .token text => [Text.quote hidden text]
  | .list ts => branch "[list]" (treeBlocks ts)

/-- The lines of each tree of a list. -/
def treeBlocks : List (Tree Production) → List (List String)
  | [] => []
  | t :: ts => outlineLines t :: treeBlocks ts

end

theorem elementBlocks_eq_map (es : List (Element ParseTree)) :
    elementBlocks hidden es = es.map (elementLines hidden) := by
  induction es with
  | nil => rfl
  | cons e es ih => simp [elementBlocks, ih]

theorem treeBlocks_eq_map (ts : List ParseTree) :
    treeBlocks hidden ts = ts.map (outlineLines hidden) := by
  induction ts with
  | nil => rfl
  | cons t ts ih => simp [treeBlocks, ih]

theorem outlineLines_ne_nil (t : ParseTree) : outlineLines hidden t ≠ [] := by
  cases t
  exact branch_ne_nil _ _

theorem elementLines_ne_nil (e : Element ParseTree) : elementLines hidden e ≠ [] := by
  cases e with
  | tree t => exact outlineLines_ne_nil hidden t
  | token text => exact List.cons_ne_nil _ _
  | list ts => exact branch_ne_nil _ _

end ParseTree

/-- The lines of anything that has a line of its own. -/
def TreeItem.lines (hidden : Char → Bool) : TreeItem → List String
  | .node t => t.outlineLines hidden
  | .element e => ParseTree.elementLines hidden e

/-! ## What a formatter writes -/

namespace TreeFormatter

variable {hidden : Char → Bool} {f : TreeFormatter} {items : List TreeItem}

/-- The children are written as siblings are put under their parent, behind the text with which the
lines below the parent begin. -/
theorem join_children
    (h : ∀ c ∈ f.children items, c.text hidden =
      String.join ((guide c.lead c.below (c.item.lines hidden)).map (· ++ "\n"))) :
    String.join ((f.children items).map (text hidden)) =
      String.join (((hang (items.map (TreeItem.lines hidden))).map (f.below ++ ·)).map
        (· ++ "\n")) := by
  induction items with
  | nil => rfl
  | cons item items ih =>
    rw [children_cons, List.forall_mem_cons] at h
    obtain ⟨hfirst, hrest⟩ := h
    rw [children_cons, List.map_cons, String.join_cons, ih hrest, hfirst, guide_append,
      List.map_cons, hang_cons]
    simp [String.join_append]

/-- A header and the children below it. -/
theorem lead_append_branch (header : String)
    (h : ∀ c ∈ f.children items, c.text hidden =
      String.join ((guide c.lead c.below (c.item.lines hidden)).map (· ++ "\n"))) :
    f.lead ++ branch header ((f.children items).map (text hidden)) =
      String.join ((guide f.lead f.below
        (Outline.branch header (items.map (TreeItem.lines hidden)))).map (· ++ "\n")) := by
  cases items with
  | nil => simp [branch, children, Outline.branch, guide, String.append_assoc]
  | cons item items =>
    have hne : (f.children (item :: items)).map (text hidden) ≠ [] := by simp [children_cons]
    rw [branch, if_neg hne, join_children h]
    simp [Outline.branch, guide, String.join_cons, String.append_assoc]

/-- A formatter writes the lines of its item, with its own texts in front of them. -/
theorem text_eq (hidden : Char → Bool) (f : TreeFormatter) :
    f.text hidden = String.join ((guide f.lead f.below (f.item.lines hidden)).map (· ++ "\n")) := by
  induction hsize : sizeOf f.item using Nat.strongRecOn generalizing f with
  | ind n ih =>
    subst hsize
    obtain ⟨item, lead, below⟩ := f
    match item with
    | .node (.node p es) =>
      have hchildren := lead_append_branch (p.name ++ ":") fun c hc =>
        ih _ (sizeOf_lt_of_node rfl hc) c rfl
      rw [text_node, TreeItem.lines, ParseTree.outlineLines, ParseTree.elementBlocks_eq_map]
      simpa [Function.comp_def, TreeItem.lines] using hchildren
    | .element (.tree t) =>
      have htree := ih (sizeOf (TreeItem.node t)) (by decreasing_tactic) ⟨.node t, "", below⟩ rfl
      rw [text_tree, htree]
      exact (join_guide lead below (ParseTree.outlineLines_ne_nil hidden t)).symm
    | .element (.token value) =>
      simp [text_token, TreeItem.lines, ParseTree.elementLines, guide, String.append_assoc]
    | .element (.list ts) =>
      have hchildren := lead_append_branch "[list]" fun c hc =>
        ih _ (sizeOf_lt_of_list rfl hc) c rfl
      rw [text_list, TreeItem.lines, ParseTree.elementLines, ParseTree.treeBlocks_eq_map]
      simpa [Function.comp_def, TreeItem.lines] using hchildren

end TreeFormatter

/-- The outline of a tree consists of its lines, each of which ends with a line feed. -/
theorem ParseTree.outlineHiding_eq_join (hidden : Char → Bool) (t : ParseTree) :
    t.outlineHiding hidden = String.join ((t.outlineLines hidden).map (· ++ "\n")) := by
  have hguide : guide "" "" (t.outlineLines hidden) = t.outlineLines hidden := by
    cases t.outlineLines hidden <;> simp [guide]
  rw [outlineHiding, TreeFormatter.text_eq, TreeItem.lines, hguide]

end AsnModel
