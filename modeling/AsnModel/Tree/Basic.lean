import AsnModel.Production

/-!
# Labelled trees with tokens and lists

The shape of a parse tree, over an arbitrary type of labels: every node has a label and the
ordered elements that were matched below it.

## Main definitions

* `Element`, `Tree` — an element of a node is a subtree, a raw token, or a list of subtrees.
* `Tree.relabelM` — replace every label, in post-order, by an effectful function.
* `Tree.annotate` — pair every label with a value computed bottom-up from the annotated
  elements below it.
* `ParseTree` — a tree whose nodes are labelled by the productions of the grammar.
-/

namespace AsnModel

universe u v w

/-- An element of a tree node whose subtrees have type `τ`. -/
inductive Element (τ : Type u) where
  /-- A subtree. -/
  | tree (t : τ)
  /-- A raw token, such as a name, a keyword or a number. -/
  | token (text : String)
  /-- An ordered list of subtrees, such as the members between braces. -/
  | list (ts : List τ)
deriving DecidableEq

/-- A tree with labels in `κ`. -/
inductive Tree (κ : Type u) where
  | node (label : κ) (elements : List (Element (Tree κ)))

namespace Element

variable {τ : Type u} {σ : Type v}

/-- The subtree that this element is, if it is one. -/
def tree? : Element τ → Option τ
  | tree t => some t
  | _ => none

/-- The token that this element is, if it is one. -/
def token? : Element τ → Option String
  | token text => some text
  | _ => none

/-- The list that this element is, if it is one. -/
def list? : Element τ → Option (List τ)
  | list ts => some ts
  | _ => none

/-- Apply `f` to every subtree directly held by this element. -/
def map (f : τ → σ) : Element τ → Element σ
  | tree t => tree (f t)
  | token text => token text
  | list ts => list (ts.map f)

end Element

namespace Tree

variable {κ : Type u}

/-- The label of the root. -/
def label : Tree κ → κ
  | node label _ => label

/-- Everything matched below the root, in source order. -/
def elements : Tree κ → List (Element (Tree κ))
  | node _ elements => elements

@[simp] theorem label_node (l : κ) (es : List (Element (Tree κ))) : (node l es).label = l := rfl

@[simp] theorem elements_node (l : κ) (es : List (Element (Tree κ))) :
    (node l es).elements = es := rfl

/-- The first element, if it is a subtree. -/
def first? (t : Tree κ) : Option (Tree κ) := t.elements.head?.bind Element.tree?

/-! ## Changing labels -/

section Relabel

variable {m : Type u → Type w} [Monad m] {ν : Type u}

mutual

/-- Replace every label by an effectful function, in post-order: the elements of a node from left
to right, and then its own label. -/
def relabelM (f : κ → m ν) : Tree κ → m (Tree ν)
  | node l es => do
    let es ← relabelElementsM f es
    return node (← f l) es

/-- `Tree.relabelM` below each element of a node. -/
def relabelElementsM (f : κ → m ν) : List (Element (Tree κ)) → m (List (Element (Tree ν)))
  | [] => return []
  | e :: es => do
    let e ← relabelElementM f e
    return e :: (← relabelElementsM f es)

/-- `Tree.relabelM` below one element. -/
def relabelElementM (f : κ → m ν) : Element (Tree κ) → m (Element (Tree ν))
  | .tree t => return .tree (← relabelM f t)
  | .token text => return .token text
  | .list ts => return .list (← relabelTreesM f ts)

/-- `Tree.relabelM` on each tree of a list. -/
def relabelTreesM (f : κ → m ν) : List (Tree κ) → m (List (Tree ν))
  | [] => return []
  | t :: ts => do
    let t ← relabelM f t
    return t :: (← relabelTreesM f ts)

end

end Relabel

/-! ## Bottom-up annotation -/

section Annotate

variable {ρ : Type v}

mutual

/-- Pair every label with the value that `rule` gives to the label and the annotated elements
below it. The rule sees what has been computed for all subtrees, at any depth. -/
def annotate (rule : κ → List (Element (Tree (κ × ρ))) → ρ) : Tree κ → Tree (κ × ρ)
  | node l es =>
    let es := annotateElements rule es
    node (l, rule l es) es

/-- `Tree.annotate` below each element of a node. -/
def annotateElements (rule : κ → List (Element (Tree (κ × ρ))) → ρ) :
    List (Element (Tree κ)) → List (Element (Tree (κ × ρ)))
  | [] => []
  | e :: es => annotateElement rule e :: annotateElements rule es

/-- `Tree.annotate` below one element. -/
def annotateElement (rule : κ → List (Element (Tree (κ × ρ))) → ρ) :
    Element (Tree κ) → Element (Tree (κ × ρ))
  | .tree t => .tree (annotate rule t)
  | .token text => .token text
  | .list ts => .list (annotateTrees rule ts)

/-- `Tree.annotate` on each tree of a list. -/
def annotateTrees (rule : κ → List (Element (Tree (κ × ρ))) → ρ) :
    List (Tree κ) → List (Tree (κ × ρ))
  | [] => []
  | t :: ts => annotate rule t :: annotateTrees rule ts

end

variable (rule : κ → List (Element (Tree (κ × ρ))) → ρ)

@[simp] theorem annotateTrees_eq_map (ts : List (Tree κ)) :
    annotateTrees rule ts = ts.map (annotate rule) := by
  induction ts with
  | nil => rfl
  | cons t ts ih => simp [annotateTrees, ih]

@[simp] theorem annotateElement_eq_map (e : Element (Tree κ)) :
    annotateElement rule e = e.map (annotate rule) := by
  cases e <;> simp [annotateElement, Element.map]

@[simp] theorem annotateElements_eq_map (es : List (Element (Tree κ))) :
    annotateElements rule es = es.map (Element.map (annotate rule)) := by
  induction es with
  | nil => rfl
  | cons e es ih => simp [annotateElements, ih]

/-- A node is annotated by the rule, applied to its annotated elements. -/
theorem annotate_node (l : κ) (es : List (Element (Tree κ))) :
    annotate rule (node l es) =
      node (l, rule l (es.map (Element.map (annotate rule))))
        (es.map (Element.map (annotate rule))) := by
  simp [annotate]

@[simp] theorem label_annotate_fst (t : Tree κ) : (annotate rule t).label.1 = t.label := by
  cases t; rfl

@[simp] theorem elements_annotate (t : Tree κ) :
    (annotate rule t).elements = t.elements.map (Element.map (annotate rule)) := by
  cases t; simp [annotate_node]

end Annotate

end Tree

/-- A tree of grammar productions. -/
abbrev ParseTree := Tree Production

end AsnModel
