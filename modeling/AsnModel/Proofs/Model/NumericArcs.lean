import AsnModel.Model.Value
import AsnModel.Proofs.Text.Natural
import Mathlib.Data.List.Forall2

/-!
# The numbers of an object identifier

An object identifier has numbers exactly if each of its components stands for one: a name for the
number that is registered for it, and a written number, with a name or without, for the number that
it spells. The numbers are then those of its components, one by one.

## Main definitions

* `ArcForm.StandsFor` — the number that a component stands for.
* `ArcForm.word64?` — the number of a component in a word of 64 bits.
-/

namespace AsnModel

namespace ObjectIdentifier

variable {name : String} {n : Nat}

/-- No name is registered twice. -/
theorem registeredArc?_eq_some_iff : registeredArc? name = some n ↔ (name, n) ∈ registeredArcs := by
  have hlisted : ∀ e ∈ registeredArcs, registeredArc? e.1 = some e.2 := by decide
  constructor
  · intro h
    obtain ⟨before, after, hsplit, -⟩ := List.lookup_eq_some_iff.1 h
    simp [hsplit]
  · exact fun h => hlisted (name, n) h

theorem lt_of_registeredArc? (h : registeredArc? name = some n) : n < 2 ^ 64 := by
  have hsmall : ∀ e ∈ registeredArcs, e.2 < 2 ^ 64 := by decide
  exact hsmall (name, n) (registeredArc?_eq_some_iff.1 h)

end ObjectIdentifier

/-! ## Single components -/

namespace ArcForm

/-- The component stands for the number `n`. A name in front of a written number does not count,
even if another number is registered for it. -/
inductive StandsFor : ArcForm → Nat → Prop
  | name {text : String} {n : Nat} (h : (text, n) ∈ ObjectIdentifier.registeredArcs) :
      StandsFor (.name text) n
  | number {text : String} {n : Nat} (h : Text.IsNumeral text n) (hfits : n < 2 ^ 64) :
      StandsFor (.number text) n
  | nameAndNumber {name text : String} {n : Nat} (h : Text.IsNumeral text n) (hfits : n < 2 ^ 64) :
      StandsFor (.nameAndNumber name text) n

theorem arc?_eq_some_iff {c : ArcForm} {n : Nat} : c.arc? = some n ↔ c.StandsFor n := by
  cases c with
  | name text =>
    rw [arc?, ObjectIdentifier.registeredArc?_eq_some_iff]
    exact ⟨.name, fun | .name h => h⟩
  | number text =>
    rw [arc?, Text.uint64?_eq_some_iff]
    exact ⟨fun h => .number h.1 h.2, fun | .number h hfits => ⟨h, hfits⟩⟩
  | nameAndNumber name text =>
    rw [arc?, Text.uint64?_eq_some_iff]
    exact ⟨fun h => .nameAndNumber h.1 h.2, fun | .nameAndNumber h hfits => ⟨h, hfits⟩⟩

theorem isSome_arc?_iff {c : ArcForm} : c.arc?.isSome ↔ ∃ n, c.StandsFor n := by
  simp only [Option.isSome_iff_exists, arc?_eq_some_iff]

/-- The number of a component in a word of 64 bits. A written number is read digit by digit. -/
def word64? : ArcForm → Option UInt64
  | .name text => (ObjectIdentifier.registeredArc? text).map UInt64.ofNat
  | .number text => Text.word64? text
  | .nameAndNumber _ text => Text.word64? text

theorem map_toNat_word64? (c : ArcForm) : c.word64?.map UInt64.toNat = c.arc? := by
  cases c with
  | name text =>
    rw [word64?, arc?, Option.map_map]
    cases h : ObjectIdentifier.registeredArc? text with
    | none => rfl
    | some n =>
      have hn := ObjectIdentifier.lt_of_registeredArc? h
      simp [UInt64.toNat_ofNat_of_lt' hn]
  | number text => exact Text.map_toNat_word64? text
  | nameAndNumber name text => exact Text.map_toNat_word64? text

end ArcForm

/-! ## Whole identifiers -/

namespace ObjectIdentifier

variable {c : ArcForm} {components : List ArcForm} {arcs : List Nat}

theorem numericArcs_cons (c : ArcForm) (cs : List ArcForm) :
    numericArcs (c :: cs) = do return (← c.arc?) :: (← numericArcs cs) := List.mapM_cons

theorem numericArcs_append (left right : List ArcForm) :
    numericArcs (left ++ right) = do return (← numericArcs left) ++ (← numericArcs right) :=
  List.mapM_append

theorem isSome_numericArcs_iff : (numericArcs components).isSome ↔
    ∀ c ∈ components, c.arc?.isSome := by
  induction components with
  | nil => simp [numericArcs]
  | cons c cs ih =>
    rw [List.forall_mem_cons, ← ih, numericArcs_cons]
    cases c.arc? <;> cases numericArcs cs <;> simp

theorem numericArcs_eq_some_iff :
    numericArcs components = some arcs ↔ List.Forall₂ ArcForm.StandsFor components arcs := by
  induction components generalizing arcs with
  | nil => simp [numericArcs, eq_comm]
  | cons c cs ih =>
    simp only [numericArcs_cons, List.forall₂_cons_left_iff, Option.bind_eq_bind, Option.pure_def,
      Option.bind_eq_some_iff, Option.some.injEq, ArcForm.arc?_eq_some_iff, ih]
    constructor
    · rintro ⟨n, hn, ns, hns, rfl⟩
      exact ⟨n, ns, hn, hns, rfl⟩
    · rintro ⟨n, ns, hn, hns, rfl⟩
      exact ⟨n, hn, ns, hns, rfl⟩

theorem map_toNat_mapM_word64? (components : List ArcForm) :
    (components.mapM ArcForm.word64?).map (List.map UInt64.toNat) = numericArcs components := by
  induction components with
  | nil => rfl
  | cons c cs ih =>
    rw [numericArcs_cons, List.mapM_cons, ← ih, ← c.map_toNat_word64?]
    cases c.word64? <;> cases cs.mapM ArcForm.word64? <;> rfl

/-- An object identifier has numbers exactly if each of its components stands for one, and these are
its numbers, in the order of the components. The numbers of a list that is split in two are those of
both parts. In words of 64 bits, with written numbers read digit by digit, the numbers are the
same. -/
theorem numericArcs_all_or_nothing (components left right : List ArcForm) :
    ((∃ arcs, numericArcs components = some arcs) ↔ ∀ c ∈ components, ∃ n, c.StandsFor n) ∧
    (∀ arcs, numericArcs components = some arcs ↔
      List.Forall₂ ArcForm.StandsFor components arcs) ∧
    (numericArcs (left ++ right) = do return (← numericArcs left) ++ (← numericArcs right)) ∧
    (components.mapM ArcForm.word64?).map (List.map UInt64.toNat) = numericArcs components := by
  refine ⟨?_, fun arcs => numericArcs_eq_some_iff, numericArcs_append left right,
    map_toNat_mapM_word64? components⟩
  rw [← Option.isSome_iff_exists, isSome_numericArcs_iff]
  exact forall₂_congr fun c _ => ArcForm.isSome_arc?_iff

/-- The largest number that fits, with leading zeros, a plus sign, blanks around it and a name that
is registered for another number. -/
theorem numericArcs_all_or_nothing_largest :
    let left : List ArcForm := [.name "iso", .nameAndNumber "country" "\u2003+0018446744073709551615 "]
    let right : List ArcForm := [.number "007"]
    (∀ c ∈ left ++ right, ∃ n, c.StandsFor n) ∧
      List.Forall₂ ArcForm.StandsFor (left ++ right) [1, 18446744073709551615, 7] ∧
      (numericArcs left).isSome ∧
      (numericArcs (left ++ [.number "18446744073709551616"])) = none := by
  intro left right
  have harcs : numericArcs (left ++ right) = some [1, 18446744073709551615, 7] := by decide
  obtain ⟨hsome, hvalues, -, -⟩ := numericArcs_all_or_nothing (left ++ right) left right
  exact ⟨hsome.1 ⟨_, harcs⟩, (hvalues _).1 harcs, by decide, by decide⟩

end ObjectIdentifier

end AsnModel
