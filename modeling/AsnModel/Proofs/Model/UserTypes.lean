import AsnModel.Proofs.Dependency.Graph
import AsnModel.Proofs.Model.TypeIndex

/-!
# The types that a module defines

A module lists the types that it defines under their distinct names, each where the name is assigned
first, with the declaration that it is assigned last. Values have no part in this, whatever their
names.

## Main definitions

* `Module.withoutValues` — a module that is left with its type assignments.
-/

namespace AsnModel

namespace Module

variable {m : Module} {name : String} {t : TypeDecl}

/-- The module without its value assignments. -/
def withoutValues (m : Module) : Module :=
  ⟨m.name, m.assignments.filter fun a => a.type?.isSome⟩

/-! ## The index -/

theorem typeNames_concat (name : String) (as : List Assignment) (a : Assignment) :
    typeNames ⟨name, as ++ [a]⟩ = typeNames ⟨name, as⟩ ++ typeNames ⟨name, [a]⟩ :=
  List.filterMap_append

/-- Names are indexed in the order in which they are first assigned. -/
theorem keys_typeIndex (m : Module) : m.typeIndex.keys = m.typeNames.eraseDups := by
  obtain ⟨name, as⟩ := m
  change (indexOf as).keys = _
  induction as using List.reverseRecOn with
  | nil => rfl
  | append_singleton as a ih =>
    rw [indexOf_concat, typeNames_concat]
    cases a with
    | type n t =>
      have hnames : typeNames ⟨name, [.type n t]⟩ = [n] := rfl
      rw [hnames, eraseDups_concat, ← ih, indexAssignment, OrderedMap.insert,
        OrderedMap.keys_alter, ih]
      simp only [List.mem_eraseDups]
    | value n t v =>
      have hnames : typeNames ⟨name, [.value n t v]⟩ = [] := rfl
      rw [hnames, List.append_nil, ← ih]
      rfl

/-- No assignment behind the one that is indexed declares the name. -/
theorem le_of_get?_indexOf {as : List Assignment} {i j : Nat}
    (hi : (indexOf as).get? name = some i) (hj : as[j]? = some (.type name t)) : j ≤ i := by
  induction as using List.reverseRecOn with
  | nil => simp at hj
  | append_singleton as a ih =>
    have hlt := (List.getElem?_eq_some_iff.1 hj).1
    rw [List.length_append, List.length_singleton] at hlt
    rw [get?_indexOf_concat] at hi
    split_ifs at hi with hdeclares
    · obtain rfl := Option.some.inj hi
      exact Nat.le_of_lt_succ hlt
    · have hne : j ≠ as.length := by
        rintro rfl
        obtain rfl : a = .type name t := by simpa using hj
        simp [Assignment.declares?] at hdeclares
      rw [List.getElem?_append_left (by omega)] at hj
      exact ih hi hj

/-- An index leads to the last type assignment of its name. -/
theorem assignment_of_mem_typeIndex {i : Nat} (h : (name, i) ∈ m.typeIndex.entries) :
    ∃ t, m.assignments[i]? = some (.type name t) ∧
      ∀ j u, m.assignments[j]? = some (.type name u) → j ≤ i := by
  have hi : (indexOf m.assignments).get? name = some i :=
    (m.typeIndex.get?_eq_some_iff name i).2 h
  rcases get?_indexOf m.assignments name with ⟨hnone, -⟩ | ⟨position, t, hposition, hat, -⟩
  · simp [hnone] at hi
  · obtain rfl : position = i := Option.some.inj (hposition.symm.trans hi)
    exact ⟨t, hat, fun j u hj => le_of_get?_indexOf hi hj⟩

/-! ## The list of types -/

/-- The types are what their names stand for, name by name. -/
theorem userTypes_eq (m : Module) :
    m.userTypes = m.typeNames.eraseDups.filterMap fun name =>
      (m.lastDeclaration? name).map fun type => (name, type) := by
  rw [← keys_typeIndex, userTypes, OrderedMap.entries_eq_filterMap_keys, List.filterMap_filterMap]
  refine List.filterMap_congr fun name _ => ?_
  rw [← userType?_eq, userType?]
  cases m.typeIndex.get? name <;> rfl

theorem mem_userTypes_iff : (name, t) ∈ m.userTypes ↔ m.lastDeclaration? name = some t := by
  rw [userTypes_eq, List.mem_filterMap]
  constructor
  · rintro ⟨n, -, hn⟩
    obtain ⟨u, hu, heq⟩ := Option.map_eq_some_iff.1 hn
    obtain ⟨rfl, rfl⟩ := Prod.mk.inj heq
    exact hu
  · intro h
    have hname : name ∈ m.typeNames := by
      by_contra hname
      simp [(m.lastDeclaration?_eq_none_iff name).2 hname] at h
    exact ⟨name, List.mem_eraseDups.2 hname, by rw [h, Option.map_some]⟩

/-- Every indexed name has its type, so that none is left out of the list. -/
theorem names_userTypes (m : Module) : m.userTypes.map Prod.fst = m.typeNames.eraseDups := by
  have hname : ∀ name ∈ m.typeNames.eraseDups,
      ((m.lastDeclaration? name).map fun type => (name, type)).map Prod.fst = some name := by
    intro name h
    rw [List.mem_eraseDups] at h
    cases hlast : m.lastDeclaration? name with
    | none => exact absurd h ((m.lastDeclaration?_eq_none_iff name).1 hlast)
    | some type => rfl
  rw [userTypes_eq, List.map_filterMap, List.filterMap_congr hname, List.filterMap_some]

/-! ## Values -/

theorem typeNames_withoutValues (m : Module) : m.withoutValues.typeNames = m.typeNames := by
  rw [typeNames, typeNames, withoutValues, List.filterMap_filter]
  refine List.filterMap_congr fun a _ => ?_
  cases a <;> rfl

theorem lastDeclaration?_withoutValues (m : Module) (name : String) :
    m.withoutValues.lastDeclaration? name = m.lastDeclaration? name := by
  rw [lastDeclaration?, lastDeclaration?, withoutValues, ← List.filter_reverse]
  induction m.assignments.reverse with
  | nil => rfl
  | cons a as ih =>
    cases a with
    | type n t => rw [List.filter_cons_of_pos rfl, List.findSome?_cons, List.findSome?_cons, ih]
    | value n t v => exact ih

theorem userTypes_withoutValues (m : Module) : m.withoutValues.userTypes = m.userTypes := by
  simp only [userTypes_eq, typeNames_withoutValues, lastDeclaration?_withoutValues]

/-- The types of a module are listed under the distinct names of its type assignments, in the order
in which the names are first assigned, and each name has the declaration that it is assigned last.
Looking up a name finds what is listed. Every index is the position of the last type assignment of
its name. Value assignments change nothing of this. -/
theorem userTypes_shadowing (m : Module) :
    m.userTypes.map Prod.fst = m.typeNames.eraseDups ∧
    (∀ name t, (name, t) ∈ m.userTypes ↔ m.lastDeclaration? name = some t) ∧
    (∀ name t, m.userType? name = some t ↔ (name, t) ∈ m.userTypes) ∧
    (∀ name i, (name, i) ∈ m.typeIndex.entries →
      ∃ t, m.assignments[i]? = some (.type name t) ∧
        ∀ j u, m.assignments[j]? = some (.type name u) → j ≤ i) ∧
    m.withoutValues.userTypes = m.userTypes ∧
    (∀ name, m.withoutValues.userType? name = m.userType? name) := by
  refine ⟨m.names_userTypes, fun name t => mem_userTypes_iff, fun name t => ?_,
    fun name i => assignment_of_mem_typeIndex, m.userTypes_withoutValues, fun name => ?_⟩
  · rw [mem_userTypes_iff, userType?_eq]
  · rw [userType?_eq, userType?_eq, lastDeclaration?_withoutValues]

/-- `A` is assigned twice, with the type `B` and a value `A` in between. -/
theorem userTypes_shadowing_between :
    let m : Module := ⟨"M", [.type "A" (.simple "NULL" none), .type "B" (.simple "REAL" none),
      .value "A" (.simple "REAL" none) (.literal "1"), .type "A" (.simple "BOOLEAN" none)]⟩
    ("A", 3) ∈ m.typeIndex.entries ∧
      (∃ t, m.assignments[3]? = some (.type "A" t)) ∧
      m.userTypes.map Prod.fst = ["A", "B"] ∧
      ("A", .simple "BOOLEAN" none) ∈ m.userTypes := by
  intro m
  have hindex : ("A", 3) ∈ m.typeIndex.entries := by decide
  obtain ⟨hnames, hmem, -, hat, -⟩ := userTypes_shadowing m
  obtain ⟨t, ht, -⟩ := hat "A" 3 hindex
  exact ⟨hindex, ⟨t, ht⟩, hnames.trans (by decide), (hmem _ _).2 rfl⟩

end Module

end AsnModel
