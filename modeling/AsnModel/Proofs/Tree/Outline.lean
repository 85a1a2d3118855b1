import AsnModel.Proofs.Text.Quoted
import AsnModel.Proofs.Tree.Lines

/-!
# What an outline shows

The outline of a tree determines the tree, whichever characters are escaped in its tokens. The
guides in front of the lines tell where each of several siblings begins, and the headers tell nodes,
lists and tokens apart.

## Main definitions

* `Outline.opening?` — the first character of the first line.
* `Outline.Unbroken` — no line has a line feed in it.
-/

namespace AsnModel

variable {items items' : List (List String)} {header header' below : String} {hidden : Char → Bool}

/-! ## Headers -/

theorem Production.isAlpha_of_mem_name (p : Production) : ∀ c ∈ p.name.toList, c.isAlpha := by
  have hall : p.name.toList.all Char.isAlpha = true := by cases p <;> rfl
  exact List.all_eq_true.1 hall

/-- A name ends at the colon. -/
theorem Production.eq_of_name_append {p q : Production} {suffix suffix' : String}
    (h : p.name ++ ":" ++ suffix = q.name ++ ":" ++ suffix') : p = q := by
  have hcolon : ∀ r : Production, ':' ∉ r.name.toList := fun r hmem => by
    simpa using r.isAlpha_of_mem_name _ hmem
  have hlist := congrArg String.toList h
  simp only [String.toList_append, List.append_assoc] at hlist
  exact name_injective (String.toList_inj.1
    (Text.append_delimiter_inj (hcolon p) (hcolon q) hlist).1)

namespace Outline

/-- The first character of the first line. -/
def opening? (lines : List String) : Option Char := lines.head?.bind fun line => line.toList.head?

/-! ## Siblings -/

theorem map_append_inj {lines lines' rest rest' : List String}
    (hrest : ∀ line, rest.head? ≠ some (below ++ line))
    (hrest' : ∀ line, rest'.head? ≠ some (below ++ line))
    (h : lines.map (below ++ ·) ++ rest = lines'.map (below ++ ·) ++ rest') :
    lines = lines' ∧ rest = rest' := by
  induction lines generalizing lines' with
  | nil =>
    cases lines' with
    | nil => exact ⟨rfl, h⟩
    | cons line lines' => exact absurd (congrArg List.head? h) (hrest line)
  | cons line lines ih =>
    cases lines' with
    | nil => exact absurd (congrArg List.head? h).symm (hrest' line)
    | cons line' lines' =>
      obtain ⟨hline, htail⟩ := List.cons.inj h
      obtain ⟨rfl, hrest⟩ := ih htail
      exact ⟨by rw [(String.append_right_inj below).1 hline], hrest⟩

/-- The lines of an item end where the guide changes. -/
theorem guide_append_inj {item item' rest rest' : List String} (hitem : item ≠ [])
    (hitem' : item' ≠ []) (hrest : ∀ line, rest.head? ≠ some (below ++ line))
    (hrest' : ∀ line, rest'.head? ≠ some (below ++ line))
    (h : guide header below item ++ rest = guide header below item' ++ rest') :
    item = item' ∧ rest = rest' := by
  cases item with
  | nil => exact absurd rfl hitem
  | cons line lines =>
    cases item' with
    | nil => exact absurd rfl hitem'
    | cons line' lines' =>
      obtain ⟨hline, htail⟩ := List.cons.inj h
      obtain ⟨rfl, hrest⟩ := map_append_inj hrest hrest' htail
      exact ⟨by rw [(String.append_right_inj header).1 hline], hrest⟩

theorem head?_hang_cons {item : List String} (hitem : item ≠ []) (items : List (List String)) :
    ∃ line, (hang (item :: items)).head? =
      some ((if items = [] then "`-- " else "|-- ") ++ line) := by
  cases item with
  | nil => exact absurd rfl hitem
  | cons line lines => exact ⟨line, by simp [hang_cons, guide]⟩

/-- Siblings never begin with the guide of the lines of the item before them. -/
theorem head?_hang_ne (hitems : ∀ item ∈ items, item ≠ []) (line : String) :
    (hang items).head? ≠ some ((if items = [] then "    " else "|   ") ++ line) := by
  cases items with
  | nil => simp [hang]
  | cons item items =>
    obtain ⟨line', h⟩ := head?_hang_cons (hitems item (by simp)) items
    rw [h]
    intro heq
    have hlist := congrArg String.toList (Option.some.inj heq)
    split at hlist <;> simp at hlist

/-- The first guide shows whether there are siblings behind it. -/
theorem eq_nil_iff_of_hang_eq {item item' : List String} (hitem : item ≠ []) (hitem' : item' ≠ [])
    (h : hang (item :: items) = hang (item' :: items')) : items = [] ↔ items' = [] := by
  obtain ⟨line, hline⟩ := head?_hang_cons hitem items
  obtain ⟨line', hline'⟩ := head?_hang_cons hitem' items'
  rw [h, hline'] at hline
  have hlist := congrArg String.toList (Option.some.inj hline)
  by_cases hnil : items = [] <;> by_cases hnil' : items' = [] <;> simp [hnil, hnil'] at hlist ⊢

/-- The lines of siblings determine the siblings. -/
theorem hang_injective (hitems : ∀ item ∈ items, item ≠ []) (hitems' : ∀ item ∈ items', item ≠ [])
    (h : hang items = hang items') : items = items' := by
  induction items generalizing items' with
  | nil =>
    cases items' with
    | nil => rfl
    | cons item' items' =>
      obtain ⟨line, hline⟩ := head?_hang_cons (hitems' item' (by simp)) items'
      simp [← h, hang] at hline
  | cons item items ih =>
    cases items' with
    | nil =>
      obtain ⟨line, hline⟩ := head?_hang_cons (hitems item (by simp)) items
      simp [h, hang] at hline
    | cons item' items' =>
      obtain ⟨hitem, hbehind⟩ := List.forall_mem_cons.1 hitems
      obtain ⟨hitem', hbehind'⟩ := List.forall_mem_cons.1 hitems'
      have hlast := eq_nil_iff_of_hang_eq hitem hitem' h
      have hguide' := head?_hang_ne hbehind'
      rw [hang_cons, hang_cons] at h
      simp only [← hlast] at h hguide'
      obtain ⟨rfl, hrest⟩ := guide_append_inj hitem hitem' (head?_hang_ne hbehind) hguide' h
      rw [ih hbehind hbehind' hrest]

/-! ## Items -/

/-- The first line begins with the header. -/
theorem head?_branch (header : String) (items : List (List String)) :
    ∃ suffix, (branch header items).head? = some (header ++ suffix) := by
  cases items with
  | nil => exact ⟨" (empty)", rfl⟩
  | cons item items => exact ⟨"", by simp [branch]⟩

/-- The lines of an item determine the items below it. -/
theorem branch_injective (hitems : ∀ item ∈ items, item ≠ []) (hitems' : ∀ item ∈ items', item ≠ [])
    (h : branch header items = branch header items') : items = items' := by
  have hempty : header ++ " (empty)" ≠ header := fun heq => by
    have hlength := congrArg String.length heq
    simp at hlength
  cases items with
  | nil =>
    cases items' with
    | nil => rfl
    | cons item' items' => exact absurd (List.head_eq_of_cons_eq h) hempty
  | cons item items =>
    cases items' with
    | nil => exact absurd (List.head_eq_of_cons_eq h).symm hempty
    | cons item' items' => exact hang_injective hitems hitems' (List.tail_eq_of_cons_eq h)

/-! ## Line feeds -/

/-- No line has a line feed in it. -/
def Unbroken (lines : List String) : Prop := ∀ line ∈ lines, '\n' ∉ line.toList

theorem unbroken_guide {lines : List String} (hheader : '\n' ∉ header.toList)
    (hbelow : '\n' ∉ below.toList) (h : Unbroken lines) : Unbroken (guide header below lines) := by
  cases lines with
  | nil => exact h
  | cons line lines =>
    simp only [Unbroken, guide, List.mem_cons, List.mem_map] at h ⊢
    rintro _ (rfl | ⟨line', hline', rfl⟩)
    · simp [hheader, h line (.inl rfl)]
    · simp [hbelow, h line' (.inr hline')]

theorem unbroken_hang (h : ∀ item ∈ items, Unbroken item) : Unbroken (hang items) := by
  induction items with
  | nil => simp [Unbroken, hang]
  | cons item items ih =>
    obtain ⟨hitem, hitems⟩ := List.forall_mem_cons.1 h
    rw [hang_cons]
    intro line hline
    rcases List.mem_append.1 hline with hline | hline
    · refine unbroken_guide ?_ ?_ hitem line hline <;> split <;> decide
    · exact ih hitems line hline

theorem unbroken_branch (hheader : '\n' ∉ header.toList) (h : ∀ item ∈ items, Unbroken item) :
    Unbroken (branch header items) := by
  cases items with
  | nil => simp [Unbroken, branch, hheader]
  | cons item items =>
    intro line hline
    rcases List.mem_cons.1 hline with rfl | hline
    · exact hheader
    · exact unbroken_hang h line hline

/-- A text of whole lines determines the lines. -/
theorem join_injective {lines lines' : List String} (h : Unbroken lines) (h' : Unbroken lines')
    (heq : String.join (lines.map (· ++ "\n")) = String.join (lines'.map (· ++ "\n"))) :
    lines = lines' := by
  induction lines generalizing lines' with
  | nil =>
    cases lines' with
    | nil => rfl
    | cons line' lines' => simpa [String.join_cons] using congrArg String.toList heq
  | cons line lines ih =>
    cases lines' with
    | nil => simpa [String.join_cons] using congrArg String.toList heq
    | cons line' lines' =>
      obtain ⟨hline, hlines⟩ := List.forall_mem_cons.1 h
      obtain ⟨hline', hlines'⟩ := List.forall_mem_cons.1 h'
      have hlist := congrArg String.toList heq
      simp only [List.map_cons, String.join_cons, String.toList_append, List.append_assoc] at hlist
      obtain ⟨hfirst, hrest⟩ := Text.append_delimiter_inj hline hline' hlist
      rw [String.toList_inj.1 hfirst, ih hlines hlines' (String.toList_inj.1 hrest)]

end Outline

namespace ParseTree

open Outline

/-! ## Trees -/

variable (hidden)

theorem ne_nil_of_mem_elementBlocks {es : List (Element ParseTree)} :
    ∀ item ∈ elementBlocks hidden es, item ≠ [] := by
  simp [elementBlocks_eq_map, elementLines_ne_nil]

theorem ne_nil_of_mem_treeBlocks {ts : List ParseTree} :
    ∀ item ∈ treeBlocks hidden ts, item ≠ [] := by
  simp [treeBlocks_eq_map, outlineLines_ne_nil]

/-- What an element is shows in its first character. -/
@[simp] theorem opening?_token (text : String) :
    opening? (elementLines hidden (.token text)) = some '"' := by
  simp [opening?, elementLines, Text.toList_quote]

@[simp] theorem opening?_list (ts : List ParseTree) :
    opening? (elementLines hidden (.list ts)) = some '[' := by
  obtain ⟨suffix, h⟩ := head?_branch "[list]" (treeBlocks hidden ts)
  simp [opening?, elementLines, h]

theorem isAlpha_of_opening? {t : ParseTree} {c : Char}
    (h : opening? (elementLines hidden (.tree t)) = some c) : c.isAlpha ∨ c = ':' := by
  obtain ⟨p, es⟩ := t
  obtain ⟨suffix, hhead⟩ := head?_branch (p.name ++ ":") (elementBlocks hidden es)
  simp only [opening?, elementLines, outlineLines, hhead, Option.bind_some,
    String.toList_append] at h
  cases hname : p.name.toList with
  | nil => simp [hname] at h; exact .inr h.symm
  | cons d ds =>
    obtain rfl : d = c := by simpa [hname] using h
    exact .inl (p.isAlpha_of_mem_name d (by simp [hname]))

@[simp] theorem opening?_tree_ne_quote (t : ParseTree) :
    opening? (elementLines hidden (.tree t)) ≠ some '"' := fun h => by
  simpa using isAlpha_of_opening? hidden h

@[simp] theorem opening?_tree_ne_bracket (t : ParseTree) :
    opening? (elementLines hidden (.tree t)) ≠ some '[' := fun h => by
  simpa using isAlpha_of_opening? hidden h

mutual

theorem unbroken_outlineLines : ∀ t : ParseTree, Unbroken (outlineLines hidden t)
  | .node p es => by
    have hheader : '\n' ∉ (p.name ++ ":").toList := fun hmem => by
      have hname : '\n' ∈ p.name.toList := by simpa using hmem
      simpa using p.isAlpha_of_mem_name _ hname
    exact unbroken_branch hheader (unbroken_elementBlocks es)

theorem unbroken_elementBlocks : ∀ es : List (Element (Tree Production)),
    ∀ item ∈ elementBlocks hidden es, Unbroken item
  | [] => by simp [elementBlocks]
  | e :: es => by
    simp only [elementBlocks, List.forall_mem_cons]
    exact ⟨unbroken_elementLines e, unbroken_elementBlocks es⟩

theorem unbroken_elementLines : ∀ e : Element (Tree Production), Unbroken (elementLines hidden e)
  | .tree t => unbroken_outlineLines t
  | .token text => by simp [Unbroken, elementLines, Text.not_mem_quote]
  | .list ts => unbroken_branch (by decide) (unbroken_treeBlocks ts)

theorem unbroken_treeBlocks : ∀ ts : List (Tree Production),
    ∀ item ∈ treeBlocks hidden ts, Unbroken item
  | [] => by simp [treeBlocks]
  | t :: ts => by
    simp only [treeBlocks, List.forall_mem_cons]
    exact ⟨unbroken_outlineLines t, unbroken_treeBlocks ts⟩

end

theorem label_eq_of_outlineLines {p q : Production} {es fs : List (Element ParseTree)}
    (h : outlineLines hidden (.node p es) = outlineLines hidden (.node q fs)) : p = q := by
  obtain ⟨suffix, hhead⟩ := head?_branch (p.name ++ ":") (elementBlocks hidden es)
  obtain ⟨suffix', hhead'⟩ := head?_branch (q.name ++ ":") (elementBlocks hidden fs)
  have heq := congrArg List.head? h
  rw [outlineLines, outlineLines, hhead, hhead'] at heq
  exact Production.eq_of_name_append (Option.some.inj heq)

mutual

theorem outlineLines_injective : ∀ a b : ParseTree,
    outlineLines hidden a = outlineLines hidden b → a = b
  | .node p es, .node q fs => fun h => by
    obtain rfl := label_eq_of_outlineLines hidden h
    have hblocks := branch_injective (ne_nil_of_mem_elementBlocks hidden)
      (ne_nil_of_mem_elementBlocks hidden) h
    rw [elementBlocks_injective es fs hblocks]

theorem elementBlocks_injective : ∀ es fs : List (Element (Tree Production)),
    elementBlocks hidden es = elementBlocks hidden fs → es = fs
  | [], fs => fun h => by cases fs <;> simp_all [elementBlocks]
  | e :: es, [] => fun h => by simp [elementBlocks] at h
  | e :: es, f :: fs => fun h => by
    obtain ⟨hhead, htail⟩ := List.cons.inj h
    rw [elementLines_injective e f hhead, elementBlocks_injective es fs htail]

theorem elementLines_injective : ∀ e f : Element (Tree Production),
    elementLines hidden e = elementLines hidden f → e = f
  | .tree t, .tree u => fun h => by rw [outlineLines_injective t u h]
  | .token text, .token text' => fun h => by
    rw [Text.quote_injective (List.head_eq_of_cons_eq h)]
  | .list ts, .list us => fun h => by
    have hblocks := branch_injective (ne_nil_of_mem_treeBlocks hidden)
      (ne_nil_of_mem_treeBlocks hidden) h
    rw [treeBlocks_injective ts us hblocks]
  | .tree _, .token _ | .tree _, .list _ | .token _, .list _ | .list _, .token _ => fun h => by
    simpa using congrArg opening? h
  | .token _, .tree _ | .list _, .tree _ => fun h => by simpa using congrArg opening? h.symm

theorem treeBlocks_injective : ∀ ts us : List (Tree Production),
    treeBlocks hidden ts = treeBlocks hidden us → ts = us
  | [], us => fun h => by cases us <;> simp_all [treeBlocks]
  | t :: ts, [] => fun h => by simp [treeBlocks] at h
  | t :: ts, u :: us => fun h => by
    obtain ⟨hhead, htail⟩ := List.cons.inj h
    rw [outlineLines_injective t u hhead, treeBlocks_injective ts us htail]

end

/-- The outline of a tree determines the tree, whichever characters are escaped in its tokens. -/
theorem outlineHiding_injective {a b : ParseTree}
    (h : a.outlineHiding hidden = b.outlineHiding hidden) : a = b := by
  rw [outlineHiding_eq_join, outlineHiding_eq_join] at h
  have hlines := join_injective (unbroken_outlineLines hidden a) (unbroken_outlineLines hidden b) h
  exact outlineLines_injective hidden a b hlines

/-- Trees have the same outline exactly if they are equal, whichever characters are escaped. -/
theorem outline_eq_iff (a b : ParseTree) :
    (∀ hidden, a.outlineHiding hidden = b.outlineHiding hidden ↔ a = b) ∧
      (a.outline = b.outline ↔ a = b) := by
  have hiff : ∀ hidden, a.outlineHiding hidden = b.outlineHiding hidden ↔ a = b := fun hidden =>
    ⟨outlineHiding_injective hidden, fun h => by rw [h]⟩
  exact ⟨hiff, hiff Text.isUnprintable⟩

/-- A token that looks like a list stays a token. -/
example : outline (.node .type [.token "a\n`-- [list]", .list []]) =
    "Type:\n|-- \"a\\n`-- [list]\"\n`-- [list] (empty)\n" := by
  rw [outline, outlineHiding_eq_join]
  decide +kernel

end ParseTree

end AsnModel
