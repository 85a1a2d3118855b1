import AsnModel.Proofs.Tree.Outline
import Mathlib.Data.List.Infix

/-!
# The layout of an outline

An outline has one line for each item of the tree. Where an item stands is told by its address, the
numbers of siblings that are passed over at each step down from the root. The lines follow each
other in pre-order, which is the lexicographic order of the addresses, and the line of an item can
be read off from its address and header: a column for each item that lies above it, in which a guide
runs down if this item has a sibling behind it, and the guide that leads to the header itself.

## Main definitions

* `Element.parts`, `Element.itemAt?` — the items directly below an item, and the one at an address.
* `Element.IsPreorder` — the addresses of all items from a given one down, in pre-order.
* `Element.hasLaterSibling` — whether an item has a sibling behind it.
* `ParseTree.lineAt?` — the line of the item at an address.
-/

namespace AsnModel

namespace Element

universe u

variable {κ : Type u} {root item : Element (Tree κ)} {address : List Nat} {i : Nat}

/-! ## Addresses -/

/-- The items directly below an item. -/
def parts : Element (Tree κ) → List (Element (Tree κ))
  | .tree t => t.elements
  | .token _ => []
  | .list ts => ts.map .tree

/-- The item at an address, if there is one. -/
def itemAt? (root : Element (Tree κ)) : List Nat → Option (Element (Tree κ))
  | [] => some root
  | i :: address => root.parts[i]?.bind (itemAt? · address)

@[simp] theorem itemAt?_nil (root : Element (Tree κ)) : root.itemAt? [] = some root := rfl

theorem itemAt?_cons (h : root.parts[i]? = some item) (address : List Nat) :
    root.itemAt? (i :: address) = item.itemAt? address := by
  rw [itemAt?, h, Option.bind_some]

theorem lt_length_of_itemAt?_cons (h : (root.itemAt? (i :: address)).isSome) :
    i < root.parts.length := by
  by_contra hle
  rw [itemAt?, List.getElem?_eq_none (Nat.le_of_not_lt hle)] at h
  simp at h

theorem sizeOf_lt_of_mem_parts [SizeOf κ] (h : item ∈ root.parts) : sizeOf item < sizeOf root := by
  cases root with
  | tree t =>
    obtain ⟨l, es⟩ := t
    have hlt := List.sizeOf_lt_of_mem (show item ∈ es from h)
    simp only [tree.sizeOf_spec, Tree.node.sizeOf_spec]
    omega
  | token text => simp [parts] at h
  | list ts =>
    obtain ⟨t, ht, rfl⟩ := List.mem_map.1 (show item ∈ ts.map .tree from h)
    have hlt := List.sizeOf_lt_of_mem ht
    simp only [tree.sizeOf_spec, list.sizeOf_spec]
    omega

/-- The addresses of all items from the root down, each once. In lexicographic order an item comes
before everything below it, and what is below it comes before its later siblings. -/
structure IsPreorder (root : Element (Tree κ)) (addresses : List (List Nat)) : Prop where
  mem_iff : ∀ address, address ∈ addresses ↔ (root.itemAt? address).isSome
  pairwise : addresses.Pairwise (· < ·)

/-- The root comes first. -/
theorem IsPreorder.exists_eq_cons {addresses : List (List Nat)} (h : IsPreorder root addresses) :
    ∃ below, addresses = [] :: below ∧ ∀ address ∈ below, address ≠ [] := by
  cases addresses with
  | nil => simpa using (h.mem_iff []).2 rfl
  | cons first below =>
    obtain ⟨hfirst, -⟩ := List.pairwise_cons.1 h.pairwise
    have hne : ∀ address ∈ below, address ≠ [] := by
      rintro _ hmem rfl
      exact List.not_lt_nil _ (hfirst [] hmem)
    have hroot : [] ∈ first :: below := (h.mem_iff []).2 rfl
    rcases List.mem_cons.1 hroot with rfl | hmem
    · exact ⟨below, rfl, hne⟩
    · exact absurd rfl (hne [] hmem)

/-! ## Siblings -/

/-- Whether the item at an address has a sibling behind it. -/
def hasLaterSibling (root : Element (Tree κ)) (address : List Nat) : Bool :=
  match address.getLast? with
  | some i => (root.itemAt? (address.dropLast ++ [i + 1])).isSome
  | none => false

theorem hasLaterSibling_singleton (root : Element (Tree κ)) (i : Nat) :
    root.hasLaterSibling [i] = decide (root.parts.drop (i + 1) ≠ []) := by
  have hitem : root.itemAt? [i + 1] = root.parts[i + 1]? := Option.bind_fun_some _
  have hlt : (root.parts[i + 1]?).isSome ↔ i + 1 < root.parts.length := by simp
  rw [hasLaterSibling, Bool.eq_iff_iff, decide_eq_true_iff, Ne, List.drop_eq_nil_iff,
    Nat.not_le, ← hlt, ← hitem]
  rfl

theorem hasLaterSibling_cons (h : root.parts[i]? = some item) (hne : address ≠ []) :
    root.hasLaterSibling (i :: address) = item.hasLaterSibling address := by
  obtain ⟨j, js, rfl⟩ := List.exists_cons_of_ne_nil hne
  rw [hasLaterSibling, hasLaterSibling, List.getLast?_cons_cons]
  split
  · rw [List.dropLast_cons_cons, List.cons_append, itemAt?_cons h]
  · rfl

/-- The addresses of the items above the one at an address, without the root, from the outermost one
inwards. -/
def ancestors (address : List Nat) : List (List Nat) := address.inits.tail.dropLast

theorem ancestors_cons (i : Nat) (hne : address ≠ []) :
    ancestors (i :: address) = [i] :: (ancestors address).map (i :: ·) := by
  obtain ⟨j, js, rfl⟩ := List.exists_cons_of_ne_nil hne
  have hbelow : (js.inits.map (j :: ·)).map (i :: ·) ≠ [] := by cases js <;> simp
  rw [ancestors, ancestors, List.inits, List.inits, List.map_cons, List.tail_cons, List.tail_cons,
    List.dropLast_cons_of_ne_nil hbelow, List.map_dropLast]

theorem ne_nil_of_mem_ancestors {ancestor : List Nat} (h : ancestor ∈ ancestors address) :
    ancestor ≠ [] := by
  cases address with
  | nil => simp [ancestors] at h
  | cons i address =>
    have hmem := List.dropLast_subset _ h
    rw [List.inits, List.tail_cons] at hmem
    obtain ⟨rest, -, rfl⟩ := List.mem_map.1 hmem
    exact List.cons_ne_nil i rest

end Element

namespace ParseTree

open Outline Element

variable (hidden : Char → Bool) {root item : Element ParseTree} {address : List Nat} {i : Nat}

/-! ## Lines -/

/-- What is shown of an item by itself. -/
def header (item : Element ParseTree) : String :=
  match item with
  | .tree t => t.label.name ++ ":" ++ mark
  | .token text => Text.quote hidden text
  | .list _ => "[list]" ++ mark
where
  /-- Items without parts are marked, except for tokens, which never have any. -/
  mark : String := if item.parts = [] then " (empty)" else ""

/-- What stands in front of the header of the item at an address: a column for each item above it,
and the guide that leads to the item. There is nothing in front of the header of the root. -/
def guides (root : Element ParseTree) (address : List Nat) : String :=
  String.join ((ancestors address).map fun ancestor =>
      if root.hasLaterSibling ancestor then "|   " else "    ") ++
    if address = [] then "" else if root.hasLaterSibling address then "|-- " else "`-- "

/-- The line of the item at an address, if there is one. -/
def lineAt? (root : Element ParseTree) (address : List Nat) : Option String :=
  (root.itemAt? address).map fun item => guides root address ++ header hidden item

@[simp] theorem lineAt?_nil (root : Element ParseTree) :
    lineAt? hidden root [] = some (header hidden root) := by
  simp [lineAt?, guides, ancestors]

theorem lineAt?_singleton (h : root.parts[i]? = some item) :
    lineAt? hidden root [i] =
      some ((if root.hasLaterSibling [i] then "|-- " else "`-- ") ++ header hidden item) := by
  simp [lineAt?, itemAt?_cons h, guides, ancestors]

/-- One level down, the column of the item above stands in front of everything else. -/
theorem lineAt?_cons (h : root.parts[i]? = some item) (hne : address ≠ []) :
    lineAt? hidden root (i :: address) =
      (lineAt? hidden item address).map
        ((if root.hasLaterSibling [i] then "|   " else "    ") ++ ·) := by
  have hcolumns : ∀ ancestor ∈ ancestors address,
      (if root.hasLaterSibling (i :: ancestor) then "|   " else "    ") =
        if item.hasLaterSibling ancestor then "|   " else "    " := fun ancestor hmem => by
    rw [hasLaterSibling_cons h (ne_nil_of_mem_ancestors hmem)]
  have hguides : guides root (i :: address) =
      (if root.hasLaterSibling [i] then "|   " else "    ") ++ guides item address := by
    rw [guides, guides, ancestors_cons i hne, List.map_cons, List.map_map, String.join_cons,
      Function.comp_def, List.map_congr_left hcolumns, if_neg (List.cons_ne_nil i address), if_neg hne,
      hasLaterSibling_cons h hne, String.append_assoc]
  rw [lineAt?, lineAt?, itemAt?_cons h, hguides, Option.map_map]
  simp [Function.comp_def, String.append_assoc]

/-- An item is shown by its header and the lines of its parts. -/
theorem elementLines_eq (item : Element ParseTree) :
    elementLines hidden item =
      header hidden item :: hang (item.parts.map (elementLines hidden)) := by
  cases item with
  | tree t =>
    obtain ⟨p, es⟩ := t
    rw [elementLines, outlineLines, elementBlocks_eq_map]
    cases es <;> simp [branch, hang, header, header.mark, parts]
  | token text => rfl
  | list ts =>
    have hlines : elementLines hidden ∘ Element.tree = outlineLines hidden := rfl
    rw [elementLines, treeBlocks_eq_map, parts, List.map_map, hlines]
    cases ts <;> simp [branch, hang, header, header.mark, parts]

/-! ## From line to line -/

/-- The addresses, in pre-order, are those of the lines. -/
structure ShowsAt (item : Element ParseTree) (addresses : List (List Nat)) : Prop extends
    IsPreorder item addresses where
  map_lineAt? : addresses.map (lineAt? hidden item) = (elementLines hidden item).map some

variable {hidden}

/-- The lines of a part, with its guides in front of them, are those at its addresses. -/
theorem ShowsAt.map_lineAt?_cons {addresses : List (List Nat)}
    (h : ShowsAt hidden item addresses) (hitem : root.parts[i]? = some item) :
    (addresses.map (i :: ·)).map (lineAt? hidden root) =
      (guide (if root.hasLaterSibling [i] then "|-- " else "`-- ")
        (if root.hasLaterSibling [i] then "|   " else "    ")
        (elementLines hidden item)).map some := by
  obtain ⟨below, rfl, hbelow⟩ := h.exists_eq_cons
  have hlines := h.map_lineAt?
  rw [elementLines_eq, List.map_cons, List.map_cons, lineAt?_nil, List.cons.injEq] at hlines
  have hcons : ∀ address ∈ below, lineAt? hidden root (i :: address) =
      (lineAt? hidden item address).map
        ((if root.hasLaterSibling [i] then "|   " else "    ") ++ ·) := fun address hmem =>
    lineAt?_cons hidden hitem (hbelow address hmem)
  rw [elementLines_eq, guide, List.map_cons, List.map_cons, List.map_cons, List.map_map,
    lineAt?_singleton hidden hitem, List.map_map]
  refine congrArg _ ((List.map_congr_left hcons).trans ?_)
  rw [← Function.comp_def, ← List.map_map, hlines.2, List.map_map]
  rfl

/-- Siblings are shown one after the other, beginning with the one at `i`. -/
theorem exists_map_lineAt?_hang {items : List (Element ParseTree)}
    (hitems : root.parts.drop i = items)
    (h : ∀ item ∈ items, ∃ addresses, ShowsAt hidden item addresses) :
    ∃ addresses : List (List Nat),
      (∀ address, address ∈ addresses ↔
        ∃ j rest, address = j :: rest ∧ i ≤ j ∧ (root.itemAt? address).isSome) ∧
      addresses.Pairwise (· < ·) ∧
      addresses.map (lineAt? hidden root) =
        (hang (items.map (elementLines hidden))).map some := by
  induction items generalizing i with
  | nil =>
    refine ⟨[], fun address => ⟨by simp, ?_⟩, .nil, rfl⟩
    rintro ⟨j, rest, rfl, hle, hsome⟩
    have hlt := lt_length_of_itemAt?_cons hsome
    have hlength := List.drop_eq_nil_iff.1 hitems
    omega
  | cons item items ih =>
    have hitem : root.parts[i]? = some item := by
      rw [← List.head?_drop, hitems, List.head?_cons]
    have hrest : root.parts.drop (i + 1) = items := by
      rw [← List.tail_drop, hitems, List.tail_cons]
    obtain ⟨own, hown⟩ := h item (by simp)
    obtain ⟨others, hmem, hsorted, hlines⟩ := ih hrest fun item hmem => h item (by simp [hmem])
    refine ⟨own.map (i :: ·) ++ others, fun address => ?_, ?_, ?_⟩
    · rw [List.mem_append, List.mem_map, hmem]
      constructor
      · rintro (⟨rest, hrest, rfl⟩ | ⟨j, rest, rfl, hle, hsome⟩)
        · exact ⟨i, rest, rfl, le_rfl, by rwa [itemAt?_cons hitem, ← hown.mem_iff]⟩
        · exact ⟨j, rest, rfl, by omega, hsome⟩
      · rintro ⟨j, rest, rfl, hle, hsome⟩
        rcases Nat.eq_or_lt_of_le hle with rfl | hlt
        · rw [itemAt?_cons hitem, ← hown.mem_iff] at hsome
          exact .inl ⟨rest, hsome, rfl⟩
        · exact .inr ⟨j, rest, rfl, hlt, hsome⟩
    · refine List.pairwise_append.2 ⟨?_, hsorted, ?_⟩
      · exact List.pairwise_map.2 (hown.pairwise.imp fun hlt => List.cons_lt_cons_self.2 hlt)
      · rintro _ hfirst _ hsecond
        obtain ⟨rest, -, rfl⟩ := List.mem_map.1 hfirst
        obtain ⟨j, rest', rfl, hle, -⟩ := (hmem _).1 hsecond
        exact List.Lex.rel (by omega)
    · have hlater := hasLaterSibling_singleton root i
      rw [hrest] at hlater
      rw [List.map_append, hown.map_lineAt?_cons hitem, hlines, List.map_cons, hang_cons,
        List.map_append, hlater]
      by_cases hnil : items = [] <;> simp [hnil]

/-- Every item is shown, from the first line on. -/
theorem exists_showsAt (hidden : Char → Bool) (item : Element ParseTree) :
    ∃ addresses, ShowsAt hidden item addresses := by
  induction hsize : sizeOf item using Nat.strongRecOn generalizing item with
  | ind n ih =>
    obtain ⟨below, hmem, hsorted, hlines⟩ := exists_map_lineAt?_hang (i := 0) rfl fun part hpart =>
      ih (sizeOf part) (hsize ▸ sizeOf_lt_of_mem_parts hpart) part rfl
    refine ⟨[] :: below, ⟨fun address => ?_, ?_⟩, ?_⟩
    · rw [List.mem_cons, hmem]
      cases address with
      | nil => simp
      | cons j rest => simp
    · refine List.pairwise_cons.2 ⟨fun address haddress => ?_, hsorted⟩
      obtain ⟨j, rest, rfl, -, -⟩ := (hmem address).1 haddress
      exact List.nil_lt_cons j rest
    · rw [List.map_cons, lineAt?_nil, hlines, elementLines_eq, List.map_cons, List.drop_zero]

/-- The outline of a tree has one line for each item of the tree, in pre-order, and the line of an
item follows from its address, whichever characters are escaped in the tokens. Each line ends with a
line feed and has no other one. -/
theorem outline_line_by_line (hidden : Char → Bool) (t : ParseTree) : ∃ addresses lines,
    IsPreorder (.tree t) addresses ∧
      addresses.map (lineAt? hidden (.tree t)) = lines.map some ∧
      Unbroken lines ∧ t.outlineHiding hidden = String.join (lines.map (· ++ "\n")) := by
  obtain ⟨addresses, h⟩ := exists_showsAt hidden (.tree t)
  exact ⟨addresses, outlineLines hidden t, h.toIsPreorder, h.map_lineAt?,
    unbroken_outlineLines hidden t, outlineHiding_eq_join hidden t⟩

/-- The list at `[0]` has a sibling behind it, and the node at `[0, 0]` has none. -/
example :
    let tree : ParseTree := .node .type [.list [.node .tag [.token "x"]], .list []]
    [[0], [0, 0], [0, 0, 0], [1]].map (lineAt? Text.isUnprintable (.tree tree)) =
      [some "|-- [list]", some "|   `-- Tag:", some "|       `-- \"x\"",
        some "`-- [list] (empty)"] := by decide +kernel

end ParseTree

end AsnModel
