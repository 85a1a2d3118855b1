import AsnModel.Proofs.Build.Numbering
import AsnModel.Proofs.Build.Yields

/-!
# Numbers of named values

The number of a named value in closed form: a number that is written is kept, and one that is not is
counted on from the last one that is written before it, or from the first named value on if there is
none. Numbering a list fails at the first named value for which there is no such number.

## Main definitions

* `itemNumbers` — the numbers of a list of named values.
* `LastWritten` — the last number that is written before a named value.
* `NumberAt` — the number of a named value in closed form.
* `FollowsNonInteger`, `FollowsOverflow` — why a named value has no such number.
* `FirstDefect` — the defect at the first named value that has none.
-/

namespace AsnModel

/-- The numbers of a list of named values. -/
def itemNumbers (items : List (ListItem String)) : List String :=
  items.filterMap fun item => item.named?.map Prod.snd

section Values

variable (values : List (Option String)) (k : Nat)

/-- Of the numbers that are written before index `k`, the last one is `text`, at index `j`. -/
structure LastWritten (j : Nat) (text : String) : Prop where
  lt : j < k
  written : values[j]? = some (some text)
  missing : ∀ i, j < i → i < k → values[i]? = some none

/-- The number at index `k`, in closed form. -/
inductive NumberAt : String → Prop where
  | written {text : String} (h : values[k]? = some (some text)) : NumberAt text
  | first (h : ∀ i ≤ k, values[i]? = some none) : NumberAt (toString k)
  | after {j : Nat} {text : String} {n : Int} (hk : values[k]? = some none)
      (hlast : LastWritten values k j text) (hn : Text.int64? text = some n)
      (hmax : n + (k - j : Nat) ≤ Text.maxInt64) : NumberAt (toString (n + (k - j : Nat)))

/-- No number is written at index `k`, and the last one before it is not an integer. -/
def FollowsNonInteger : Prop :=
  values[k]? = some none ∧ ∃ j text, LastWritten values k j text ∧ Text.int64? text = none

/-- No number is written at index `k`, and counting on from the last one before it leaves 64
bits. -/
def FollowsOverflow : Prop :=
  values[k]? = some none ∧ ∃ j text n, LastWritten values k j text ∧
    Text.int64? text = some n ∧ Text.maxInt64 < n + (k - j : Nat)

/-- There is no number for index `k`, where none is written. -/
def Unnumberable : Prop := FollowsNonInteger values k ∨ FollowsOverflow values k

end Values

variable {values : List (Option String)} {i j k : Nat} {identifier number previous text : String}
  {prev : Option String} {items : List (ListItem (Option String))}
  {numbered : List (ListItem String)} {defect : Defect}

/-! ## One number -/

theorem LastWritten.unique {j' : Nat} {text' : String} (h : LastWritten values k j text)
    (h' : LastWritten values k j' text') : j = j' ∧ text = text' := by
  rcases Nat.lt_trichotomy j j' with hlt | rfl | hgt
  · simpa [h'.written] using h.missing j' hlt h'.lt
  · simpa [h.written] using h'.written
  · simpa [h.written] using h'.missing j hgt h.lt

theorem not_lastWritten (h : ∀ i ≤ k, values[i]? = some none) : ¬LastWritten values k j text :=
  fun hlast => by simpa [hlast.written] using h j (Nat.le_of_lt hlast.lt)

theorem NumberAt.unique {number' : String} (h : NumberAt values k number)
    (h' : NumberAt values k number') : number = number' := by
  cases h with
  | written hk =>
    cases h' with
    | written hk' => simpa [hk] using hk'
    | first hnone => simpa [hk] using hnone k (Nat.le_refl k)
    | after hk' => simp [hk] at hk'
  | first hnone =>
    cases h' with
    | written hk' => simp [hnone k (Nat.le_refl k)] at hk'
    | first => rfl
    | after _ hlast => exact absurd hlast (not_lastWritten hnone)
  | after hk hlast hn =>
    cases h' with
    | written hk' => simp [hk] at hk'
    | first hnone => exact absurd hlast (not_lastWritten hnone)
    | after _ hlast' hn' =>
      obtain ⟨rfl, rfl⟩ := hlast.unique hlast'
      obtain rfl := Option.some.inj (hn.symm.trans hn')
      rfl

theorem NumberAt.lt_length (h : NumberAt values k number) : k < values.length := by
  cases h with
  | written hk => exact (List.getElem?_eq_some_iff.1 hk).1
  | first hnone => exact (List.getElem?_eq_some_iff.1 (hnone k (Nat.le_refl k))).1
  | after hk => exact (List.getElem?_eq_some_iff.1 hk).1

theorem Unnumberable.lt_length (h : Unnumberable values k) : k < values.length := by
  have hk : values[k]? = some none := by
    rcases h with h | h
    · exact h.1
    · exact h.1
  exact (List.getElem?_eq_some_iff.1 hk).1

theorem NumberAt.not_unnumberable (h : NumberAt values k number) : ¬Unnumberable values k := by
  rintro (⟨hk, j, text, hlast, hn⟩ | ⟨hk, j, text, n, hlast, hn, hover⟩)
  · cases h with
    | written hk' => simp [hk] at hk'
    | first hnone => exact not_lastWritten hnone hlast
    | after _ hlast' hn' =>
      obtain ⟨-, rfl⟩ := hlast.unique hlast'
      simp [hn] at hn'
  · cases h with
    | written hk' => simp [hk] at hk'
    | first hnone => exact not_lastWritten hnone hlast
    | after _ hlast' hn' hmax =>
      obtain ⟨rfl, rfl⟩ := hlast.unique hlast'
      obtain rfl := Option.some.inj (hn.symm.trans hn')
      omega

/-! ## From one number to the next -/

/-- What the number before one that is not written tells about it: either counting has begun with
the last number that is written, or there is none. -/
theorem NumberAt.cases_next (h : NumberAt values k previous) (hk : values[k + 1]? = some none)
    (hlength : k ≤ Text.maxInt64) :
    (∃ j text, LastWritten values (k + 1) j text ∧ (Text.int64? text = none ∧
        Text.int64? previous = none ∨ ∃ n, Text.int64? text = some n ∧
        Text.int64? previous = some (n + (k - j : Nat)))) ∨
      (∀ i ≤ k + 1, values[i]? = some none) ∧ Text.int64? previous = some (k : Int) := by
  cases h with
  | written hwritten =>
    refine .inl ⟨k, previous, ⟨Nat.lt_succ_self k, hwritten, fun i _ _ => by omega⟩, ?_⟩
    cases hn : Text.int64? previous with
    | none => exact .inl ⟨rfl, rfl⟩
    | some n => exact .inr ⟨n, rfl, by simp⟩
  | first hnone =>
    refine .inr ⟨fun i hi => ?_, ?_⟩
    · rcases Nat.le_succ_iff.1 hi with hi | rfl
      · exact hnone i hi
      · exact hk
    · exact Text.int64?_repr (n := k) (by simp only [Text.minInt64]; omega) hlength
  | @after j text n hk' hlast hn hmax =>
    have hlast' : LastWritten values (k + 1) j text := by
      refine ⟨Nat.lt_succ_of_lt hlast.lt, hlast.written, fun i hji hi => ?_⟩
      rcases Nat.lt_succ_iff_lt_or_eq.1 hi with hi | rfl
      · exact hlast.missing i hji hi
      · exact hk'
    have hmin := Text.minInt64_le_of_int64? hn
    exact .inl ⟨j, text, hlast', .inr ⟨n, hn, Text.int64?_repr (by omega) hmax⟩⟩

theorem NumberAt.next (h : NumberAt values k previous) (hk : values[k + 1]? = some none)
    (hlength : k ≤ Text.maxInt64) (hnumber : successor identifier previous = .ok number) :
    NumberAt values (k + 1) number := by
  obtain ⟨m, hm, hlt, rfl⟩ := successor_eq_ok_iff.1 hnumber
  rcases h.cases_next hk hlength with ⟨j, text, hlast, ⟨-, hnone⟩ | ⟨n, hn, hprevious⟩⟩ |
    ⟨hnone, hprevious⟩
  · simp [hm] at hnone
  · obtain rfl := Option.some.inj (hm.symm.trans hprevious)
    have hj := hlast.lt
    have hsum : n + (k - j : Nat) + 1 = n + (k + 1 - j : Nat) := by omega
    rw [hsum]
    exact .after hk hlast hn (by omega)
  · obtain rfl := Option.some.inj (hm.symm.trans hprevious)
    exact .first hnone

theorem NumberAt.next_error (h : NumberAt values k previous) (hk : values[k + 1]? = some none)
    (hlength : k + 1 ≤ Text.maxInt64) (hdefect : successor identifier previous = .error defect) :
    FollowsNonInteger values (k + 1) ∧ defect = .nonIntegerValue identifier previous ∨
      FollowsOverflow values (k + 1) ∧ defect = .valueOverflow identifier previous := by
  have hcases := h.cases_next hk (by omega)
  rcases successor_eq_error hdefect with ⟨rfl, hnone⟩ | ⟨rfl, hmax⟩
  · refine .inl ⟨⟨hk, ?_⟩, rfl⟩
    rcases hcases with ⟨j, text, hlast, ⟨hn, -⟩ | ⟨n, -, hprevious⟩⟩ | ⟨-, hprevious⟩
    · exact ⟨j, text, hlast, hn⟩
    · simp [hnone] at hprevious
    · simp [hnone] at hprevious
  · refine .inr ⟨⟨hk, ?_⟩, rfl⟩
    rcases hcases with ⟨j, text, hlast, ⟨-, hprevious⟩ | ⟨n, hn, hprevious⟩⟩ | ⟨-, hprevious⟩
    · simp [hmax] at hprevious
    · have hsum := Option.some.inj (hmax.symm.trans hprevious)
      have hj := hlast.lt
      exact ⟨j, text, n, hlast, hn, by omega⟩
    · have hsum := Option.some.inj (hmax.symm.trans hprevious)
      omega

/-! ## A whole list -/

/-- The number before index `k`, if there is one. -/
def NumberBefore (values : List (Option String)) (k : Nat) : Option String → Prop
  | none => k = 0
  | some number => ∃ j, k = j + 1 ∧ NumberAt values j number

@[simp] theorem itemNumbers_nil : itemNumbers [] = [] := rfl

@[simp] theorem itemNumbers_extension :
    itemNumbers (.extension :: numbered) = itemNumbers numbered := rfl

@[simp] theorem itemNumbers_named : itemNumbers (.named identifier number :: numbered) =
    number :: itemNumbers numbered := rfl

/-- Numbering goes by the closed form, from one named value to the next. -/
theorem numberAt_of_numberItemsAfter {before after : List (Option String)}
    (hvalues : values = before ++ (writtenNumbers items ++ after))
    (hlength : values.length ≤ Text.maxInt64 + 1) (hprev : NumberBefore values before.length prev)
    (h : numberItemsAfter prev items = .ok numbered)
    (hk : (itemNumbers numbered)[k]? = some number) :
    NumberAt values (before.length + k) number := by
  induction items generalizing before prev numbered k with
  | nil =>
    obtain rfl := numberItemsAfter_nil.1 h
    simp at hk
  | cons item items ih =>
    -- A named value has its number, and the rest of the list goes on from there.
    have hnamed : ∀ {identifier value current rest},
        values = before ++ (value :: writtenNumbers items ++ after) →
        NumberAt values before.length current →
        numberItemsAfter (some current) items = .ok rest →
        (itemNumbers (.named identifier current :: rest))[k]? = some number →
        NumberAt values (before.length + k) number := by
      intro identifier value current rest hvalues hcurrent hrest hk
      cases k with
      | zero =>
        obtain rfl : current = number := by simpa using hk
        exact hcurrent
      | succ k =>
        have hbefore : NumberBefore values (before ++ [value]).length (some current) :=
          ⟨before.length, by simp, hcurrent⟩
        have hnext := ih (by simpa using hvalues) hbefore hrest (by simpa using hk)
        simpa [Nat.add_assoc, Nat.add_comm 1] using hnext
    rcases item with ⟨identifier, value | value⟩ | _
    · have hmissing : values[before.length]? = some none := by simp [hvalues]
      cases prev with
      | none =>
        obtain ⟨rest, hrest, rfl⟩ := numberItemsAfter_first.1 h
        have hzero : before.length = 0 := hprev
        refine hnamed hvalues ?_ hrest hk
        rw [hzero] at hmissing ⊢
        exact .first fun i hi => by rwa [Nat.le_zero.1 hi]
      | some previous =>
        obtain ⟨current, rest, hcurrent, hrest, rfl⟩ := numberItemsAfter_next.1 h
        obtain ⟨j, hj, hprevious⟩ := hprev
        refine hnamed hvalues ?_ hrest hk
        rw [hj] at hmissing ⊢
        have hlt := (List.getElem?_eq_some_iff.1 hmissing).1
        exact hprevious.next hmissing (by omega) hcurrent
    · obtain ⟨rest, hrest, rfl⟩ := numberItemsAfter_numbered.1 h
      exact hnamed hvalues (.written (by simp [hvalues])) hrest hk
    · obtain ⟨rest, hrest, rfl⟩ := numberItemsAfter_extension.1 h
      exact ih hvalues hprev hrest hk

theorem itemNumbers_eq_map : itemNumbers numbered =
    (numbered.filterMap ListItem.named?).map Prod.snd := by
  rw [List.map_filterMap, itemNumbers]

theorem writtenNumbers_eq_map : writtenNumbers items =
    (items.filterMap ListItem.named?).map Prod.snd := by
  rw [List.map_filterMap, writtenNumbers]

theorem lastNumber?_none : lastNumber? none numbered = (itemNumbers numbered).getLast? := by
  rw [itemNumbers_eq_map, List.getLast?_map, lastNumber?, Option.or_none]

theorem length_filterMap_named? {ν μ : Type} (f : ν → μ) (items : List (ListItem ν)) :
    ((items.map fun item => item.map f).filterMap ListItem.named?).length =
      (items.filterMap ListItem.named?).length := by
  induction items with
  | nil => rfl
  | cons item items ih => cases item <;> simpa [ListItem.named?, List.filterMap_cons] using ih

/-- Numbering gives every named value one number. -/
theorem length_itemNumbers (h : numberItemsAfter prev items = .ok numbered) :
    (itemNumbers numbered).length = (writtenNumbers items).length := by
  rw [itemNumbers_eq_map, writtenNumbers_eq_map, List.length_map, List.length_map,
    ← length_filterMap_named? fun _ => (), map_numberItemsAfter h, length_filterMap_named?]

/-- Index `k + 1` is that of the first named value without a number. The defect names it, and the
number before it. -/
def FirstDefect (items : List (ListItem (Option String))) (k : Nat) (defect : Defect) : Prop :=
  ∃ identifier previous,
    (items.filterMap ListItem.named?)[k + 1]? = some (identifier, none) ∧
    NumberAt (writtenNumbers items) k previous ∧
    (∀ i ≤ k, ¬Unnumberable (writtenNumbers items) i) ∧
    (FollowsNonInteger (writtenNumbers items) (k + 1) ∧
        defect = .nonIntegerValue identifier previous ∨
      FollowsOverflow (writtenNumbers items) (k + 1) ∧
        defect = .valueOverflow identifier previous)

theorem FirstDefect.unnumberable (h : FirstDefect items k defect) :
    Unnumberable (writtenNumbers items) (k + 1) := by
  obtain ⟨_, _, -, -, -, hwhy⟩ := h
  exact hwhy.imp And.left And.left

section Numbered

variable (hlength : (writtenNumbers items).length ≤ Text.maxInt64 + 1)
include hlength

/-- Numbering the front of a list goes by the closed form as well. -/
theorem numberAt_of_numberItems {front : List (ListItem (Option String))}
    (hfront : writtenNumbers front <+: writtenNumbers items) (h : numberItems front = .ok numbered)
    (hk : (itemNumbers numbered)[k]? = some number) : NumberAt (writtenNumbers items) k number := by
  obtain ⟨after, hafter⟩ := hfront
  have hvalues : writtenNumbers items = [] ++ (writtenNumbers front ++ after) := hafter.symm
  have hstart : NumberBefore (writtenNumbers items) 0 none := rfl
  have hnumber := numberAt_of_numberItemsAfter hvalues hlength hstart h hk
  simpa using hnumber

/-- Where a list is numbered, the closed form gives every number. -/
theorem getElem?_itemNumbers_iff (h : numberItems items = .ok numbered) :
    (itemNumbers numbered)[k]? = some number ↔ NumberAt (writtenNumbers items) k number := by
  have hclosed : ∀ {number}, (itemNumbers numbered)[k]? = some number →
      NumberAt (writtenNumbers items) k number :=
    fun hk => numberAt_of_numberItems hlength (List.prefix_refl _) h hk
  refine ⟨hclosed, fun hnumber => ?_⟩
  have hlt : k < (itemNumbers numbered).length := by
    rw [length_itemNumbers h]
    exact hnumber.lt_length
  have hk := List.getElem?_eq_getElem hlt
  rw [hk, (hclosed hk).unique hnumber]

theorem not_unnumberable_of_numberItems (h : numberItems items = .ok numbered) (k : Nat) :
    ¬Unnumberable (writtenNumbers items) k := by
  intro hk
  have hlt : k < (itemNumbers numbered).length := by
    rw [length_itemNumbers h]
    exact hk.lt_length
  exact ((getElem?_itemNumbers_iff hlength h).1 (List.getElem?_eq_getElem hlt)).not_unnumberable hk

theorem exists_firstDefect (h : numberItems items = .error defect) :
    ∃ k, FirstDefect items k defect := by
  obtain ⟨identifier, previous, ⟨before, after, numbered, hitems, hbefore, hlast⟩, hdefect⟩ :=
    exists_takesNumberAfter_of_eq_error h
  have hfront : writtenNumbers before <+: writtenNumbers items := by
    simp [hitems, writtenNumbers]
  have hclosed : ∀ {i number}, (itemNumbers numbered)[i]? = some number →
      NumberAt (writtenNumbers items) i number :=
    fun hi => numberAt_of_numberItems hlength hfront hbefore hi
  rw [lastNumber?_none, List.getLast?_eq_getElem?] at hlast
  obtain ⟨k, hk⟩ : ∃ k, (itemNumbers numbered).length = k + 1 := by
    refine Nat.exists_eq_succ_of_ne_zero fun hzero => ?_
    simp [List.length_eq_zero_iff.1 hzero] at hlast
  have hnamed : (items.filterMap ListItem.named?)[k + 1]? = some (identifier, none) := by
    have hlen : (before.filterMap ListItem.named?).length = k + 1 := by
      have hnumbers := length_itemNumbers hbefore
      rw [hk, writtenNumbers_eq_map, List.length_map] at hnumbers
      exact hnumbers.symm
    simp [hitems, ← hlen, ListItem.named?]
  have hprevious : NumberAt (writtenNumbers items) k previous :=
    hclosed (by simpa [hk] using hlast)
  refine ⟨k, identifier, previous, hnamed, hprevious, fun i hi => ?_, ?_⟩
  · exact (hclosed (List.getElem?_eq_getElem (by omega))).not_unnumberable
  · have hmissing : (writtenNumbers items)[k + 1]? = some none := by
      simp [writtenNumbers_eq_map, hnamed]
    have hlt := (List.getElem?_eq_some_iff.1 hmissing).1
    exact hprevious.next_error hmissing (by omega) hdefect

end Numbered

/-! ## Building -/

section Building

open Reading ParseTree

variable {o : BuildOptions} {s s' : Nat} {ts : List ParseTree}

/-- Once its items are built, an enumeration is built if they can be numbered. -/
theorem runFrom_valueList (name : String)
    (hitems : Threads (BuildsAs .listItem o) ts s items s') :
    (build (.node .valueListType [.token name, .list ts])).runFrom o s =
      match numberItems items with
      | .ok numbered => (.ok (.type (.valueList name (some numbered))), s')
      | .error defect => (.error (.malformed .valueListType defect), s') := by
  cases hnumbered : numberItems items with
  | ok numbered => exact gives_of_yields (.valueList hitems hnumbered)
  | error defect =>
    have hname : Reading.Gives token o (.onto .valueListType 0 [.token name, .list ts]) s name
        (.onto .valueListType 1 [.list ts]) s := gives_token.2 ⟨_, rfl, rfl, rfl⟩
    have hlist : Reading.Gives listItems o (.onto .valueListType 1 [.list ts]) s (some items)
        (.onto .valueListType 2 []) s' :=
      gives_listItems.2 (.inr ⟨ts, [], items, rfl, hitems, rfl, rfl⟩)
    have hfinish : Reading.Gives finish o (.onto .valueListType 2 []) s' ()
        (.onto .valueListType 2 []) s' := gives_finish.2 ⟨rfl, rfl, rfl⟩
    have hrule : rule .valueListType = Node.type <$> valueList := rfl
    rw [build_node, construct, hrule]
    refine runFrom_map_of_error (c := .onto .valueListType 0 [.token name, .list ts]) ?_
    rw [valueList, hname.runFrom_bind, hlist.runFrom_bind, hfinish.runFrom_bind]
    simp only [hnumbered, run_fail]
    rfl

/-- How a list of named values is numbered that belongs to an enumeration. Numbers that are written
are kept, and the others are counted on from them. This fails at the first named value for which
counting on makes no sense, or does not end within 64 bits. A BIT STRING is not numbered. The
indices themselves are counted within 64 bits. -/
theorem build_enumeration (name : String)
    (hitems : Threads (BuildsAs .listItem o) ts s items s')
    (hlength : (writtenNumbers items).length ≤ Text.maxInt64 + 1) :
    ((∃ e, ((build (.node .valueListType [.token name, .list ts])).runFrom o s).1 = .error e) ↔
      ∃ k, Unnumberable (writtenNumbers items) k) ∧
    (∀ e, ((build (.node .valueListType [.token name, .list ts])).runFrom o s).1 = .error e →
      ∃ k defect, e = .malformed .valueListType defect ∧ FirstDefect items k defect) ∧
    (∀ n, ((build (.node .valueListType [.token name, .list ts])).runFrom o s).1 = .ok n →
      ∃ numbered, n = .type (.valueList name (some numbered)) ∧
        (numbered.map fun item => item.map fun _ => ()) =
          (items.map fun item => item.map fun _ => ()) ∧
        ∀ k number, (itemNumbers numbered)[k]? = some number ↔
          NumberAt (writtenNumbers items) k number) ∧
    (build (.node .bitStringType [.token name, .list ts])).Gives o s
      (.type (.bitString name (some items))) s' := by
  have hbits : (build (.node .bitStringType [.token name, .list ts])).Gives o s
      (.type (.bitString name (some items))) s' := gives_of_yields (.bitString hitems)
  have hbuild := runFrom_valueList name hitems
  cases hnumbered : numberItems items with
  | ok numbered =>
    rw [hnumbered] at hbuild
    rw [hbuild]
    refine ⟨⟨?_, ?_⟩, ?_, ?_, hbits⟩
    · rintro ⟨e, ⟨⟩⟩
    · rintro ⟨k, hk⟩
      exact (not_unnumberable_of_numberItems hlength hnumbered k hk).elim
    · rintro e ⟨⟩
    · rintro n ⟨⟩
      exact ⟨numbered, rfl, map_numberItemsAfter hnumbered, fun k number =>
        getElem?_itemNumbers_iff hlength hnumbered⟩
  | error defect =>
    obtain ⟨k, hk⟩ := exists_firstDefect hlength hnumbered
    rw [hnumbered] at hbuild
    rw [hbuild]
    refine ⟨⟨fun _ => ⟨k + 1, hk.unnumberable⟩, fun _ => ⟨_, rfl⟩⟩, ?_, ?_, hbits⟩
    · rintro e ⟨⟩
      exact ⟨k, defect, rfl, hk⟩
    · rintro n ⟨⟩

/-- Counting goes on behind a numeral as it is written, and over an extension marker. -/
theorem build_enumeration_counting_on :
    let ts : List ParseTree := [.node .namedValue [.token "a"],
      .node .namedValue [.tree (.node .identifier [.token "b"]),
        .tree (.node .value [.token " +07 "])],
      .node .extensionMarker [], .node .namedValue [.token "c"]]
    let items := [.named "a" none, .named "b" (some " +07 "), .extension, .named "c" none]
    let numbered := [.named "a" "0", .named "b" " +07 ", .extension, .named "c" "8"]
    Threads (BuildsAs .listItem {}) ts 3 items 3 ∧
      (writtenNumbers items).length ≤ Text.maxInt64 + 1 ∧
      (build (.node .valueListType [.token "ENUMERATED", .list ts])).Gives {} 3
        (.type (.valueList "ENUMERATED" (some numbered))) 3 ∧
      ∀ k number, (itemNumbers numbered)[k]? = some number ↔
        NumberAt [none, some " +07 ", none] k number := by
  intro ts items numbered
  have hitems : Threads (BuildsAs .listItem {}) ts 3 items 3 :=
    .cons ⟨_, gives_of_yields .namedValue, rfl⟩ <|
    .cons ⟨_, gives_of_yields .numberedValue, rfl⟩ <|
    .cons ⟨_, gives_of_yields .extensionMarker, rfl⟩ <|
    .cons ⟨_, gives_of_yields .namedValue, rfl⟩ <| .nil 3
  have hlength : (writtenNumbers items).length ≤ Text.maxInt64 + 1 := by decide
  have hbuild : (build (.node .valueListType [.token "ENUMERATED", .list ts])).Gives {} 3
      (.type (.valueList "ENUMERATED" (some numbered))) 3 :=
    gives_of_yields (.valueList hitems rfl)
  obtain ⟨-, -, hnumbers, -⟩ := build_enumeration "ENUMERATED" hitems hlength
  obtain ⟨numbered', heq, -, hclosed⟩ := hnumbers _ (congrArg Prod.fst hbuild)
  obtain rfl : numbered = numbered' := by simpa using heq
  exact ⟨hitems, hlength, hbuild, hclosed⟩

end Building

end AsnModel
