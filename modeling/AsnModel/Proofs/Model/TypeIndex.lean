import AsnModel.Model.Resolve
import AsnModel.Proofs.OrderedMap
import Mathlib.Data.Finset.Card

/-!
# The types of a module by name

A name stands for the last of the type assignments that define it.

## Main definitions

* `Module.lastDeclaration?` — the declaration of the last type assignment of a name.
-/

namespace AsnModel

/-- The declaration, if the assignment defines the type of the given name. -/
def Assignment.declares? (name : String) : Assignment → Option TypeDecl
  | .type n t => if n = name then some t else none
  | .value _ _ _ => none

namespace Module

/-- The declaration of the last type assignment of a name. -/
def lastDeclaration? (m : Module) (name : String) : Option TypeDecl :=
  m.assignments.reverse.findSome? (Assignment.declares? name)

/-- The index of the assignments of a list. -/
def indexOf (as : List Assignment) : OrderedMap String Nat :=
  as.zipIdx.foldl indexAssignment .empty

theorem indexOf_concat (as : List Assignment) (a : Assignment) :
    indexOf (as ++ [a]) = indexAssignment (indexOf as) (a, as.length) := by
  simp [indexOf, List.zipIdx_append]

theorem get?_indexOf_concat (as : List Assignment) (a : Assignment) (name : String) :
    (indexOf (as ++ [a])).get? name =
      if (a.declares? name).isSome then some as.length else (indexOf as).get? name := by
  rw [indexOf_concat]
  cases a with
  | type n t =>
    by_cases h : n = name
    · simp [indexAssignment, OrderedMap.insert, OrderedMap.get?_alter, Assignment.declares?, h]
    · simp [indexAssignment, OrderedMap.insert, OrderedMap.get?_alter, Assignment.declares?, h,
        Ne.symm h]
  | value n t v => simp [indexAssignment, Assignment.declares?]

theorem findSome?_declares?_concat (as : List Assignment) (a : Assignment) (name : String) :
    (as ++ [a]).reverse.findSome? (Assignment.declares? name) =
      (a.declares? name).or (as.reverse.findSome? (Assignment.declares? name)) := by
  cases h : a.declares? name <;> simp [h]

/-- The index leads to the assignment that declares a name last. -/
theorem get?_indexOf (as : List Assignment) (name : String) :
    (indexOf as).get? name = none ∧ as.reverse.findSome? (Assignment.declares? name) = none ∨
      ∃ position t, (indexOf as).get? name = some position ∧
        as[position]? = some (.type name t) ∧
        as.reverse.findSome? (Assignment.declares? name) = some t := by
  induction as using List.reverseRecOn with
  | nil => exact .inl ⟨rfl, rfl⟩
  | append_singleton as a ih =>
    rw [get?_indexOf_concat, findSome?_declares?_concat]
    cases h : a.declares? name with
    | some t =>
      obtain rfl : a = .type name t := by
        cases a <;> simp_all [Assignment.declares?]
      exact .inr ⟨as.length, t, by simp, by simp, by simp⟩
    | none =>
      rcases ih with ⟨hindex, hlast⟩ | ⟨position, t, hindex, hat, hlast⟩
      · exact .inl ⟨by simpa using hindex, by simpa using hlast⟩
      · have hlt := (List.getElem?_eq_some_iff.1 hat).1
        exact .inr ⟨position, t, by simpa using hindex,
          by rwa [List.getElem?_append_left hlt], by simpa using hlast⟩

theorem userType?_eq (m : Module) (name : String) : m.userType? name = m.lastDeclaration? name := by
  change ((indexOf m.assignments).get? name).bind _ = m.assignments.reverse.findSome? _
  rcases get?_indexOf m.assignments name with ⟨hindex, hlast⟩ | ⟨position, t, hindex, hat, hlast⟩
  · rw [hindex, hlast]
    rfl
  · simp [hindex, hlast, typeAt?, hat, Assignment.type?]

theorem mem_typeNames_iff (m : Module) (name : String) :
    name ∈ m.typeNames ↔ ∃ t, .type name t ∈ m.assignments := by
  simp only [typeNames, List.mem_filterMap]
  constructor
  · rintro ⟨_ | _, ha, hname⟩ <;> simp_all
    exact ⟨_, ha⟩
  · rintro ⟨t, ht⟩
    exact ⟨_, ht, rfl⟩

theorem lastDeclaration?_eq_none_iff (m : Module) (name : String) :
    m.lastDeclaration? name = none ↔ name ∉ m.typeNames := by
  simp only [lastDeclaration?, List.findSome?_eq_none_iff, List.mem_reverse, mem_typeNames_iff,
    not_exists]
  constructor
  · intro h t ht
    simpa [Assignment.declares?] using h _ ht
  · rintro h (⟨n, t⟩ | _) ha
    · have : n ≠ name := by
        rintro rfl
        exact h t ha
      simp [Assignment.declares?, this]
    · rfl

theorem mem_assignments_of_lastDeclaration? {m : Module} {name : String} {t : TypeDecl}
    (h : m.lastDeclaration? name = some t) : .type name t ∈ m.assignments := by
  obtain ⟨a, ha, hdeclares⟩ := List.exists_of_findSome?_eq_some h
  obtain rfl : a = .type name t := by
    cases a <;> simp_all [Assignment.declares?]
  exact List.mem_reverse.1 ha

theorem mem_typeNames_of_mem_keys {m : Module} {name : String} (h : name ∈ m.typeIndex.keys) :
    name ∈ m.typeNames := by
  change name ∈ (indexOf m.assignments).keys at h
  rcases get?_indexOf m.assignments name with ⟨hindex, -⟩ | ⟨position, t, -, hat, -⟩
  · exact absurd h ((OrderedMap.get?_eq_none_iff _ _).1 hindex)
  · exact (m.mem_typeNames_iff name).2 ⟨t, List.mem_of_getElem? hat⟩

/-- No more names are indexed than the module has distinct names of types. -/
theorem length_keys_typeIndex_le (m : Module) :
    m.typeIndex.keys.length ≤ m.typeNames.toFinset.card := by
  rw [← List.toFinset_card_of_nodup (l := m.typeIndex.keys) m.typeIndex.nodup_keys]
  exact Finset.card_le_card fun name h => by
    simpa using mem_typeNames_of_mem_keys (List.mem_toFinset.1 h)

end Module

end AsnModel
