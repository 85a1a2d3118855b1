import AsnModel.Build.Numbering
import AsnModel.Proofs.Text.Numeral

/-!
# Numbering of enumerations

How the numbers of a list of named values come about, one item at a time, and which lists can be
numbered.

## Main definitions

* `writtenNumbers` — the numbers of a list of named values, as far as they are written.
* `CountsOn`, `Numberable` — the numbers that are not written fit into 64 bits.
-/

namespace AsnModel

variable {identifier number previous : String} {prev : Option String}
  {items : List (ListItem (Option String))} {numbered : List (ListItem String)}

namespace ListItem

variable {ν μ : Type} (f : ν → μ)

@[simp] theorem map_named (value : ν) :
    (named identifier value).map f = .named identifier (f value) := rfl

@[simp] theorem map_extension : (extension : ListItem ν).map f = .extension := rfl

end ListItem

theorem successor_eq_ok_iff : successor identifier previous = .ok number ↔
    ∃ n, Text.int64? previous = some n ∧ n < Text.maxInt64 ∧ number = toString (n + 1) := by
  unfold successor
  cases Text.int64? previous with
  | none => simp
  | some n => by_cases h : n < Text.maxInt64 <;> simp [h, eq_comm]

@[simp] theorem numberItemsAfter_nil :
    numberItemsAfter prev [] = .ok numbered ↔ numbered = [] := by
  simp [numberItemsAfter, pure, Except.pure, eq_comm]

@[simp] theorem numberItemsAfter_extension :
    numberItemsAfter prev (.extension :: items) = .ok numbered ↔
      ∃ rest, numberItemsAfter prev items = .ok rest ∧ numbered = .extension :: rest := by
  rw [numberItemsAfter]
  cases numberItemsAfter prev items <;> simp [bind, Except.bind, pure, Except.pure, eq_comm]

@[simp] theorem numberItemsAfter_numbered :
    numberItemsAfter prev (.named identifier (some number) :: items) = .ok numbered ↔
      ∃ rest, numberItemsAfter (some number) items = .ok rest ∧
        numbered = .named identifier number :: rest := by
  rw [numberItemsAfter]
  cases numberItemsAfter (some number) items <;>
    simp [bind, Except.bind, pure, Except.pure, eq_comm]

@[simp] theorem numberItemsAfter_first :
    numberItemsAfter none (.named identifier none :: items) = .ok numbered ↔
      ∃ rest, numberItemsAfter (some "0") items = .ok rest ∧
        numbered = .named identifier "0" :: rest := by
  rw [numberItemsAfter]
  cases h : numberItemsAfter (some "0") items <;>
    simp [h, bind, Except.bind, pure, Except.pure, eq_comm]

@[simp] theorem numberItemsAfter_next :
    numberItemsAfter (some previous) (.named identifier none :: items) = .ok numbered ↔
      ∃ number rest, successor identifier previous = .ok number ∧
        numberItemsAfter (some number) items = .ok rest ∧
          numbered = .named identifier number :: rest := by
  rw [numberItemsAfter]
  cases successor identifier previous with
  | error defect => simp [bind, Except.bind]
  | ok number =>
    cases h : numberItemsAfter (some number) items <;>
      simp [h, bind, Except.bind, pure, Except.pure, eq_comm]

/-- Numbering only sets numbers: it keeps the items, in their order. -/
theorem map_numberItemsAfter (h : numberItemsAfter prev items = .ok numbered) :
    (numbered.map fun item => item.map fun _ => ()) =
      items.map fun item => item.map fun _ => () := by
  induction items generalizing prev numbered with
  | nil => simp_all
  | cons item items ih =>
    rcases item with ⟨identifier, number | number⟩ | _
    · cases prev with
      | none =>
        obtain ⟨rest, hrest, rfl⟩ := numberItemsAfter_first.1 h
        simp [ih hrest]
      | some previous =>
        obtain ⟨number, rest, -, hrest, rfl⟩ := numberItemsAfter_next.1 h
        simp [ih hrest]
    · obtain ⟨rest, hrest, rfl⟩ := numberItemsAfter_numbered.1 h
      simp [ih hrest]
    · obtain ⟨rest, hrest, rfl⟩ := numberItemsAfter_extension.1 h
      simp [ih hrest]

/-- A list in which every named value has a number is left as it is. -/
theorem numberItemsAfter_map_some (prev : Option String) (items : List (ListItem String)) :
    numberItemsAfter prev (items.map (·.map some)) = .ok items := by
  induction items generalizing prev with
  | nil => simp
  | cons item items ih => cases item <;> simp [ih]

/-! ## Lists that cannot be numbered -/

/-- The number of the last named value of a list, which is `prev` if there is none. -/
def lastNumber? (prev : Option String) (numbered : List (ListItem String)) : Option String :=
  (numbered.filterMap ListItem.named?).getLast?.map Prod.snd |>.or prev

@[simp] theorem lastNumber?_nil : lastNumber? prev [] = prev := rfl

@[simp] theorem lastNumber?_extension :
    lastNumber? prev (.extension :: numbered) = lastNumber? prev numbered := rfl

@[simp] theorem lastNumber?_named :
    lastNumber? prev (.named identifier number :: numbered) =
      lastNumber? (some number) numbered := by
  simp only [lastNumber?, ListItem.named?, List.filterMap_cons, List.getLast?_cons]
  cases (numbered.filterMap ListItem.named?).getLast? <;> simp

/-- The list has a named value `identifier` without a number, to be numbered after `previous`. -/
def TakesNumberAfter (prev : Option String) (items : List (ListItem (Option String)))
    (identifier previous : String) : Prop :=
  ∃ before after numbered, items = before ++ .named identifier none :: after ∧
    numberItemsAfter prev before = .ok numbered ∧ lastNumber? prev numbered = some previous

theorem TakesNumberAfter.cons {prev' : Option String} {item : ListItem (Option String)}
    {item' : ListItem String} (h : TakesNumberAfter prev' items identifier previous)
    (hitem : ∀ {before numbered}, numberItemsAfter prev' before = .ok numbered →
      numberItemsAfter prev (item :: before) = .ok (item' :: numbered))
    (hlast : ∀ numbered, lastNumber? prev (item' :: numbered) = lastNumber? prev' numbered) :
    TakesNumberAfter prev (item :: items) identifier previous := by
  obtain ⟨before, after, numbered, rfl, hbefore, hprevious⟩ := h
  exact ⟨item :: before, after, item' :: numbered, rfl, hitem hbefore, by rw [hlast, hprevious]⟩

theorem eq_error_of_bind_pure {ε α β : Type} {x : Except ε α} {f : α → β} {e : ε}
    (h : (x >>= fun a => pure (f a)) = .error e) : x = .error e := by
  cases x with
  | error e' => simpa [bind, Except.bind] using h
  | ok a => simp [bind, Except.bind, pure, Except.pure] at h

/-- Numbering only fails where a named value cannot be given the number after the one before it. -/
theorem exists_takesNumberAfter_of_eq_error {defect : Defect}
    (h : numberItemsAfter prev items = .error defect) :
    ∃ identifier previous, TakesNumberAfter prev items identifier previous ∧
      successor identifier previous = .error defect := by
  induction items generalizing prev with
  | nil => simp [numberItemsAfter, pure, Except.pure] at h
  | cons item items ih =>
    rcases item with ⟨identifier, _ | number⟩ | _
    · cases prev with
      | none =>
        obtain ⟨i, p, hp, hfail⟩ := ih (eq_error_of_bind_pure h)
        exact ⟨i, p, hp.cons (fun hb => numberItemsAfter_first.2 ⟨_, hb, rfl⟩) (by simp), hfail⟩
      | some previous =>
        cases hnumber : successor identifier previous with
        | error defect' =>
          obtain rfl : defect' = defect := by
            simpa [numberItemsAfter, hnumber, bind, Except.bind] using h
          exact ⟨identifier, previous, ⟨[], items, [], rfl, by simp, rfl⟩, hnumber⟩
        | ok number =>
          rw [numberItemsAfter, hnumber] at h
          obtain ⟨i, p, hp, hfail⟩ := ih (eq_error_of_bind_pure h)
          exact ⟨i, p, hp.cons
            (fun hb => numberItemsAfter_next.2 ⟨number, _, hnumber, hb, rfl⟩) (by simp), hfail⟩
    · obtain ⟨i, p, hp, hfail⟩ := ih (eq_error_of_bind_pure h)
      exact ⟨i, p, hp.cons (fun hb => numberItemsAfter_numbered.2 ⟨_, hb, rfl⟩) (by simp), hfail⟩
    · obtain ⟨i, p, hp, hfail⟩ := ih (eq_error_of_bind_pure h)
      exact ⟨i, p, hp.cons (fun hb => numberItemsAfter_extension.2 ⟨_, hb, rfl⟩) (by simp), hfail⟩

theorem successor_eq_error {defect : Defect} (h : successor identifier previous = .error defect) :
    (defect = .nonIntegerValue identifier previous ∧ Text.int64? previous = none) ∨
      defect = .valueOverflow identifier previous ∧
        Text.int64? previous = some Text.maxInt64 := by
  unfold successor at h
  cases hn : Text.int64? previous with
  | none =>
    rw [hn] at h
    exact .inl ⟨(Except.error.inj h).symm, rfl⟩
  | some n =>
    have hle := Text.le_maxInt64_of_int64? hn
    by_cases hlt : n < Text.maxInt64
    · simp [hn, hlt] at h
    · obtain rfl : n = Text.maxInt64 := by omega
      exact .inr ⟨by simpa [hn, eq_comm] using h, rfl⟩

/-! ## Lists that can be numbered -/

/-- The numbers of the named values of a list, which may not be written. -/
def writtenNumbers (items : List (ListItem (Option String))) : List (Option String) :=
  items.filterMap fun item => item.named?.map Prod.snd

/-- How many numbers are not written before the first one that is. -/
def gap : List (Option String) → Nat
  | none :: numbers => gap numbers + 1
  | _ => 0

/-- Counting from `previous` on gives the numbers that are not written at the front, if any. -/
def CountsOn (previous : String) (numbers : List (Option String)) : Prop :=
  gap numbers = 0 ∨ ∃ n, Text.int64? previous = some n ∧ n + gap numbers ≤ Text.maxInt64

/-- Counting on from every number that is written gives the numbers behind it. -/
def CountsOnBehind (numbers : List (Option String)) : Prop :=
  ∀ before previous rest, numbers = before ++ some previous :: rest → CountsOn previous rest

/-- The numbers that are not written can be counted. At the front they begin with zero. -/
structure Numberable (numbers : List (Option String)) : Prop where
  first : (gap numbers : Int) ≤ Text.maxInt64 + 1
  behind : CountsOnBehind numbers

variable {numbers : List (Option String)}

theorem numberable_iff :
    Numberable numbers ↔ (gap numbers : Int) ≤ Text.maxInt64 + 1 ∧ CountsOnBehind numbers :=
  ⟨fun h => ⟨h.first, h.behind⟩, fun h => ⟨h.1, h.2⟩⟩

@[simp] theorem writtenNumbers_nil : writtenNumbers [] = [] := rfl

@[simp] theorem writtenNumbers_named {value : Option String} :
    writtenNumbers (.named identifier value :: items) = value :: writtenNumbers items := rfl

@[simp] theorem writtenNumbers_extension :
    writtenNumbers (.extension :: items) = writtenNumbers items := rfl

@[simp] theorem countsOn_nil : CountsOn previous [] := .inl rfl

@[simp] theorem countsOn_written : CountsOn previous (some number :: numbers) := .inl rfl

/-- Counting on by one number is possible if there is a next number, from which the rest counts
on. -/
theorem countsOn_missing : CountsOn previous (none :: numbers) ↔
    ∃ n, Text.int64? previous = some n ∧ n < Text.maxInt64 ∧ CountsOn (n + 1).repr numbers := by
  constructor
  · rintro (h | ⟨n, hn, hmax⟩)
    · simp [gap] at h
    · have hmin := Text.minInt64_le_of_int64? hn
      simp only [gap] at hmax
      exact ⟨n, hn, by omega, .inr ⟨n + 1, Text.int64?_repr (by omega) (by omega), by omega⟩⟩
  · rintro ⟨n, hn, hmax, h⟩
    refine .inr ⟨n, hn, ?_⟩
    simp only [gap]
    rcases h with h | ⟨m, hm, hmmax⟩
    · omega
    · rw [Text.int64?_repr (by have := Text.minInt64_le_of_int64? hn; omega) (by omega)] at hm
      obtain rfl : n + 1 = m := by simpa using hm
      omega

@[simp] theorem countsOnBehind_nil : CountsOnBehind [] := by
  simp [CountsOnBehind]

@[simp] theorem countsOnBehind_written :
    CountsOnBehind (some number :: numbers) ↔ CountsOn number numbers ∧ CountsOnBehind numbers := by
  constructor
  · intro h
    exact ⟨h [] number numbers rfl, fun before previous rest hrest =>
      h (some number :: before) previous rest (by simp [hrest])⟩
  · rintro ⟨hnumber, h⟩ before previous rest hrest
    cases before with
    | nil => simp_all
    | cons x before => exact h before previous rest (by simp_all)

@[simp] theorem countsOnBehind_missing :
    CountsOnBehind (none :: numbers) ↔ CountsOnBehind numbers := by
  constructor
  · intro h before previous rest hrest
    exact h (none :: before) previous rest (by simp [hrest])
  · intro h before previous rest hrest
    cases before with
    | nil => simp at hrest
    | cons x before => exact h before previous rest (by simp_all)

theorem exists_numberItemsAfter_iff :
    (∃ numbered, numberItemsAfter (some previous) items = .ok numbered) ↔
      CountsOn previous (writtenNumbers items) ∧ CountsOnBehind (writtenNumbers items) := by
  induction items generalizing previous with
  | nil => simp
  | cons item items ih =>
    rcases item with ⟨identifier, number | number⟩ | _
    · simp only [numberItemsAfter_next, writtenNumbers_named, countsOn_missing,
        countsOnBehind_missing, successor_eq_ok_iff]
      constructor
      · rintro ⟨numbered, number, rest, ⟨n, hn, hmax, rfl⟩, hrest, rfl⟩
        obtain ⟨hcounts, hbehind⟩ := ih.1 ⟨rest, hrest⟩
        exact ⟨⟨n, hn, hmax, by simpa using hcounts⟩, hbehind⟩
      · rintro ⟨⟨n, hn, hmax, hcounts⟩, hbehind⟩
        obtain ⟨rest, hrest⟩ := ih.2 ⟨hcounts, hbehind⟩
        exact ⟨_, _, rest, ⟨n, hn, hmax, rfl⟩, by simpa using hrest, rfl⟩
    · simp [exists_comm, ih]
    · simp [exists_comm, ih]

theorem int64?_zero : Text.int64? "0" = some 0 := by decide

/-- A list of named values is numbered exactly if its missing numbers can be counted. -/
theorem exists_numberItems_iff :
    (∃ numbered, numberItems items = .ok numbered) ↔ Numberable (writtenNumbers items) := by
  unfold numberItems
  induction items with
  | nil => simp [numberable_iff, gap, Text.maxInt64]
  | cons item items ih =>
    rcases item with ⟨identifier, number | number⟩ | _
    · -- The first missing number is zero, from which the next ones are counted on.
      have hgap : CountsOn "0" (writtenNumbers items) ↔
          (gap (none :: writtenNumbers items) : Int) ≤ Text.maxInt64 + 1 := by
        simp [CountsOn, int64?_zero, gap, Text.maxInt64]
        omega
      simp [exists_comm, exists_numberItemsAfter_iff, numberable_iff, hgap]
    · simp [exists_comm, exists_numberItemsAfter_iff, numberable_iff, gap, Text.maxInt64]
    · simp [exists_comm, ih]

end AsnModel
