import AsnModel.Proofs.Model.TypeIndex
import Mathlib.Data.List.Chain
import Mathlib.Data.List.Range
import Mathlib.Order.Bounds.Defs

/-!
# Following references

Resolving a declaration follows the sequence of the declarations that its references stand for. The
sequence ends with a declaration that is not a reference, or with a name that is not defined, or it
comes back to a name and never ends. Resolving tells these cases apart.

## Main definitions

* `Module.alias?` — the sequence of declarations, from a given one on.
* `Module.aliasName?` — the names that its references refer to.
* `Module.resolveCounted` — resolving, with the count of references that are looked up.
-/

namespace AsnModel

namespace TypeDecl

/-- The name that a bare reference refers to. -/
def target? : TypeDecl → Option String
  | .reference name => some name.name
  | _ => none

@[simp] theorem target?_eq_some_iff {t : TypeDecl} {name : String} :
    t.target? = some name ↔ ∃ qualifier, t = .reference ⟨qualifier, name⟩ := by
  cases t with
  | reference n => cases n; simp [target?]
  | _ => simp [target?]

@[simp] theorem target?_eq_none_iff {t : TypeDecl} : t.target? = none ↔ t.isReference = false := by
  cases t <;> simp [target?, isReference]

theorem isReference_eq_false {t : TypeDecl}
    (h : ∀ qualifier name, t = .reference ⟨qualifier, name⟩ → False) : t.isReference = false := by
  cases t with
  | reference n => exact (h n.qualifier n.name rfl).elim
  | _ => rfl

end TypeDecl

namespace Module

variable {m : Module} {t u : TypeDecl} {name : String} {chain : List String} {i j k : ℕ}

/-! ## The sequence of declarations -/

/-- The declarations that following references leads to. A reference is followed by the last
declaration of its name, if there is one. -/
def alias? (m : Module) (t : TypeDecl) : ℕ → Option TypeDecl
  | 0 => some t
  | k + 1 => ((m.alias? t k).bind TypeDecl.target?).bind m.lastDeclaration?

/-- The names of the references among these declarations. -/
def aliasName? (m : Module) (t : TypeDecl) (k : ℕ) : Option String :=
  (m.alias? t k).bind TypeDecl.target?

@[simp] theorem alias?_zero : m.alias? t 0 = some t := rfl

theorem alias?_succ : m.alias? t (k + 1) = (m.aliasName? t k).bind m.lastDeclaration? := rfl

theorem aliasName?_eq_some_iff : m.aliasName? t k = some name ↔
    ∃ qualifier, m.alias? t k = some (.reference ⟨qualifier, name⟩) := by
  rw [aliasName?, Option.bind_eq_some_iff]
  constructor
  · rintro ⟨u, hu, hname⟩
    obtain ⟨qualifier, rfl⟩ := TypeDecl.target?_eq_some_iff.1 hname
    exact ⟨qualifier, hu⟩
  · rintro ⟨qualifier, hu⟩
    exact ⟨_, hu, rfl⟩

/-- The sequence goes on alike behind equal names. -/
theorem alias?_add_eq (h : m.aliasName? t i = m.aliasName? t j) (d : ℕ) :
    m.alias? t (i + d + 1) = m.alias? t (j + d + 1) := by
  induction d with
  | zero => simp [alias?_succ, h]
  | succ d ih =>
    rw [alias?_succ, alias?_succ, aliasName?, aliasName?, ← Nat.add_assoc, ← Nat.add_assoc, ih]

theorem alias?_eq_none_of_le (h : m.alias? t i = none) (hij : i ≤ j) : m.alias? t j = none := by
  induction j, hij using Nat.le_induction with
  | base => exact h
  | succ j _ ih => simp [alias?_succ, aliasName?, ih]

/-- There is at most one place where the sequence ends. -/
theorem end_unique (hi : m.alias? t i = some u) (hi' : m.alias? t (i + 1) = none)
    {v : TypeDecl} (hj : m.alias? t j = some v) (hj' : m.alias? t (j + 1) = none) : i = j := by
  rcases Nat.lt_trichotomy i j with h | h | h
  · simp [alias?_eq_none_of_le hi' h] at hj
  · exact h
  · simp [alias?_eq_none_of_le hj' h] at hi

/-- A sequence that comes back to a name never ends. -/
theorem alias?_isSome_of_repeat (hjk : j < k) (hname : m.aliasName? t j = m.aliasName? t k)
    (hk : (m.alias? t k).isSome) (i : ℕ) : (m.alias? t i).isSome := by
  induction i using Nat.strong_induction_on with
  | _ i ih =>
    by_cases hik : i ≤ k
    · by_contra hi
      simp [alias?_eq_none_of_le (by simpa using hi) hik] at hk
    · -- Behind `k` the sequence is as it is behind `j`, which is an earlier place.
      obtain ⟨d, rfl⟩ := Nat.exists_eq_add_of_lt (Nat.lt_of_not_le hik)
      rw [← alias?_add_eq hname]
      exact ih _ (by omega)

/-! ## The number of steps -/

/-- `Module.resolveAfter` with the number of references that it looks up. -/
def resolveCounted (m : Module) (chain : List String) (t : TypeDecl) :
    Except ResolveError TypeDecl × ℕ :=
  match t with
  | .reference ⟨_, name⟩ =>
    if _hchain : name ∈ chain then (.error (.recursive (chain ++ [name])), 1)
    else
      match _htype : m.userType? name with
      | none => (.error (.unresolved name), 1)
      | some type =>
        let (result, steps) := m.resolveCounted (chain ++ [name]) type
        (result, steps + 1)
  | t => (.ok t, 0)
termination_by (m.unvisited chain).length
decreasing_by exact length_unvisited_lt (mem_keys_of_userType? _htype) _hchain

theorem fst_resolveCounted (m : Module) (chain : List String) (t : TypeDecl) :
    (m.resolveCounted chain t).1 = m.resolveAfter chain t := by
  fun_induction resolveCounted m chain t with
  | case1 chain qualifier name hrepeat => simp [resolveAfter_reference, hrepeat]
  | case2 chain qualifier name hnew hundefined => simp [resolveAfter_reference, hnew, hundefined]
  | case3 chain qualifier name hnew type htype result steps heq ih =>
    simp_all [resolveAfter_reference]
  | case4 chain t hreference =>
    rw [resolveAfter_of_not_isReference]
    exact TypeDecl.isReference_eq_false hreference

/-- Every reference that is looked up, except perhaps the last one, is to a name that is defined
and new. -/
theorem snd_resolveCounted_le (m : Module) (chain : List String) (t : TypeDecl) :
    (m.resolveCounted chain t).2 ≤ (m.unvisited chain).length + 1 := by
  fun_induction resolveCounted m chain t with
  | case1 => simp
  | case2 => simp
  | case3 chain qualifier name hnew type htype result steps heq ih =>
    have := length_unvisited_lt (mem_keys_of_userType? htype) hnew
    simp_all
    omega
  | case4 => simp

theorem length_unvisited_nil_le (m : Module) :
    (m.unvisited []).length ≤ m.typeNames.toFinset.card := by
  simpa [unvisited] using m.length_keys_typeIndex_le

/-! ## What resolving follows -/

/-- Before its `k`-th step, resolving has come across the names of `chain`, all of them
different. -/
structure Follows (m : Module) (t : TypeDecl) (k : ℕ) (chain : List String) : Prop where
  names : chain.map some = (List.range k).map (m.aliasName? t)
  nodup : chain.Nodup

/-- What can come of resolving a declaration, and after how many references. -/
inductive Outcome (m : Module) (t : TypeDecl) : Except ResolveError TypeDecl → ℕ → Prop where
  | ok {k : ℕ} {u : TypeDecl} (hu : m.alias? t k = some u) (hreference : u.isReference = false) :
    Outcome m t (.ok u) k
  | unresolved {k : ℕ} {name : String} (hname : m.aliasName? t k = some name)
      (hundefined : m.lastDeclaration? name = none) : Outcome m t (.error (.unresolved name)) (k + 1)
  | recursive {k : ℕ} {chain : List String} {name : String} (hchain : m.Follows t k chain)
      (hname : m.aliasName? t k = some name) (hrepeat : name ∈ chain) :
    Outcome m t (.error (.recursive (chain ++ [name]))) (k + 1)

theorem Follows.concat (hchain : m.Follows t k chain) (hname : m.aliasName? t k = some name)
    (hnew : name ∉ chain) : m.Follows t (k + 1) (chain ++ [name]) where
  names := by simp [List.range_succ, hchain.names, hname]
  nodup := by simp [List.nodup_append, hchain.nodup]; grind

/-- One turn of the loop: `u` is the declaration that has been reached. -/
theorem outcome_resolveCounted (hchain : m.Follows t k chain) (hu : m.alias? t k = some u) :
    m.Outcome t (m.resolveCounted chain u).1 (k + (m.resolveCounted chain u).2) := by
  fun_induction resolveCounted m chain u generalizing k with
  | case1 chain qualifier name hrepeat =>
    exact .recursive hchain (by simp [aliasName?, hu, TypeDecl.target?]) hrepeat
  | case2 chain qualifier name hnew hundefined =>
    have hname : m.aliasName? t k = some name := by simp [aliasName?, hu, TypeDecl.target?]
    exact .unresolved hname (by rwa [← userType?_eq])
  | case3 chain qualifier name hnew type htype result steps heq ih =>
    have hname : m.aliasName? t k = some name := by simp [aliasName?, hu, TypeDecl.target?]
    have htype' : m.alias? t (k + 1) = some type := by
      rw [alias?_succ, hname, ← htype, userType?_eq]
      rfl
    have houtcome := ih (hchain.concat hname hnew) htype'
    rwa [heq, Nat.add_right_comm, Nat.add_assoc] at houtcome
  | case4 chain u hreference =>
    exact .ok hu (TypeDecl.isReference_eq_false hreference)

theorem exists_outcome {result : Except ResolveError TypeDecl} (h : m.resolve t = result) :
    ∃ steps, m.Outcome t result steps ∧ (m.resolveCounted [] t).2 = steps := by
  have houtcome := outcome_resolveCounted (m := m) (t := t) (k := 0) ⟨rfl, List.nodup_nil⟩ rfl
  rw [fst_resolveCounted, Nat.zero_add] at houtcome
  exact ⟨_, h ▸ houtcome, rfl⟩

theorem Follows.exists_lt_of_mem (hchain : m.Follows t k chain) (hname : name ∈ chain) :
    ∃ j < k, m.aliasName? t j = some name := by
  have hmem : some name ∈ chain.map some := List.mem_map_of_mem hname
  rw [hchain.names] at hmem
  simpa using hmem

/-- The name that resolving comes back to is the first one to be repeated. -/
theorem Follows.isLeast_repeat (hchain : m.Follows t k chain) (hname : m.aliasName? t k = some name)
    (hrepeat : name ∈ chain) : IsLeast {k | ∃ j < k, m.aliasName? t j = m.aliasName? t k} k := by
  constructor
  · obtain ⟨j, hj, hjname⟩ := hchain.exists_lt_of_mem hrepeat
    exact ⟨j, hj, by rw [hjname, hname]⟩
  · rintro k' ⟨j, hj, hjk'⟩
    by_contra hk'
    have hnodup : ((List.range k).map (m.aliasName? t)).Nodup :=
      hchain.names ▸ hchain.nodup.map (Option.some_injective _)
    have := List.inj_on_of_nodup_map hnodup (List.mem_range.2 (by omega))
      (List.mem_range.2 (by omega)) hjk'
    omega

/-- Consecutive names of the sequence are one reference apart. -/
theorem isChain_of_names (h : chain.map some = (List.range (k + 1)).map (m.aliasName? t)) :
    chain.IsChain fun a b => (m.lastDeclaration? a).bind TypeDecl.target? = some b := by
  have hrange : ((List.range (k + 1)).map (m.aliasName? t)).IsChain
      fun a b => (a.bind m.lastDeclaration?).bind TypeDecl.target? = b := by
    rw [List.isChain_map, List.isChain_range_succ]
    exact fun _ _ => rfl
  rw [← h, List.isChain_map] at hrange
  exact hrange

/-! ## The cases -/

theorem alias?_succ_eq_none_of_not_isReference (hu : m.alias? t k = some u)
    (hreference : u.isReference = false) : m.alias? t (k + 1) = none := by
  simp [alias?_succ, aliasName?, hu, TypeDecl.target?_eq_none_iff.2 hreference]

theorem alias?_succ_eq_none_of_undefined (hname : m.aliasName? t k = some name)
    (hundefined : m.lastDeclaration? name = none) : m.alias? t (k + 1) = none := by
  simp [alias?_succ, hname, hundefined]

theorem Follows.alias?_isSome (hchain : m.Follows t k chain) (hname : m.aliasName? t k = some name)
    (hrepeat : name ∈ chain) (i : ℕ) : (m.alias? t i).isSome := by
  obtain ⟨j, hj, hjname⟩ := hchain.exists_lt_of_mem hrepeat
  refine alias?_isSome_of_repeat hj (hjname.trans hname.symm) ?_ i
  obtain ⟨qualifier, hk⟩ := aliasName?_eq_some_iff.1 hname
  simp [hk]

/-- A sequence that ends tells how, and when. -/
theorem resolve_eq_of_end (hu : m.alias? t k = some u) (hend : m.alias? t (k + 1) = none) :
    (m.resolve t, (m.resolveCounted [] t).2) = match u.target? with
      | none => (.ok u, k)
      | some name => (.error (.unresolved name), k + 1) := by
  obtain ⟨steps, h, hsteps⟩ := exists_outcome (m := m) (t := t) rfl
  rw [hsteps]
  generalize m.resolve t = result at h
  cases h with
  | ok hv hreference =>
    obtain rfl := end_unique hu hend hv (alias?_succ_eq_none_of_not_isReference hv hreference)
    obtain rfl : u = _ := Option.some.inj (hu.symm.trans hv)
    rw [TypeDecl.target?_eq_none_iff.2 hreference]
  | unresolved hname hundefined =>
    obtain ⟨qualifier, hv⟩ := aliasName?_eq_some_iff.1 hname
    obtain rfl := end_unique hu hend hv (alias?_succ_eq_none_of_undefined hname hundefined)
    obtain rfl : u = _ := Option.some.inj (hu.symm.trans hv)
    rfl
  | recursive hchain hname hrepeat =>
    simpa [hend] using hchain.alias?_isSome hname hrepeat (k + 1)

/-- A sequence that ends with a declaration is followed to its end. -/
theorem resolve_eq_of_not_isReference (hu : m.alias? t k = some u)
    (hreference : u.isReference = false) :
    m.resolve t = .ok u ∧ (m.resolveCounted [] t).2 = k := by
  have h := resolve_eq_of_end hu (alias?_succ_eq_none_of_not_isReference hu hreference)
  rw [TypeDecl.target?_eq_none_iff.2 hreference] at h
  exact Prod.mk.inj h

/-- The name with which a sequence ends is the last one that is looked up. -/
theorem resolve_eq_of_undefined {qualifier : Option String}
    (hu : m.alias? t k = some (.reference ⟨qualifier, name⟩))
    (hundefined : m.lastDeclaration? name = none) :
    m.resolve t = .error (.unresolved name) ∧ (m.resolveCounted [] t).2 = k + 1 :=
  Prod.mk.inj (resolve_eq_of_end hu
    (alias?_succ_eq_none_of_undefined (aliasName?_eq_some_iff.2 ⟨_, hu⟩) hundefined))

theorem resolve_eq_ok_iff :
    m.resolve t = .ok u ↔ ∃ k, m.alias? t k = some u ∧ u.isReference = false := by
  constructor
  · intro h
    obtain ⟨steps, houtcome, -⟩ := exists_outcome h
    cases houtcome with
    | ok hu hreference => exact ⟨_, hu, hreference⟩
  · rintro ⟨k, hu, hreference⟩
    exact (resolve_eq_of_not_isReference hu hreference).1

theorem resolve_eq_unresolved_iff : m.resolve t = .error (.unresolved name) ↔
    ∃ k qualifier, m.alias? t k = some (.reference ⟨qualifier, name⟩) ∧ name ∉ m.typeNames := by
  simp only [← lastDeclaration?_eq_none_iff]
  constructor
  · intro h
    obtain ⟨steps, houtcome, -⟩ := exists_outcome h
    cases houtcome with
    | unresolved hname hundefined =>
      obtain ⟨qualifier, hk⟩ := aliasName?_eq_some_iff.1 hname
      exact ⟨_, qualifier, hk, hundefined⟩
  · rintro ⟨k, qualifier, hk, hundefined⟩
    exact (resolve_eq_of_undefined hk hundefined).1

theorem exists_resolve_eq_recursive_iff :
    (∃ chain, m.resolve t = .error (.recursive chain)) ↔ ∀ k, (m.alias? t k).isSome := by
  constructor
  · rintro ⟨chain, h⟩
    obtain ⟨steps, houtcome, -⟩ := exists_outcome h
    cases houtcome with
    | recursive hchain hname hrepeat => exact hchain.alias?_isSome hname hrepeat
  · intro hsome
    obtain ⟨steps, houtcome, -⟩ := exists_outcome (m := m) (t := t) rfl
    generalize m.resolve t = result at houtcome
    cases houtcome with
    | ok hu hreference =>
      have := hsome (steps + 1)
      simp [alias?_succ_eq_none_of_not_isReference hu hreference] at this
    | @unresolved k _ hname hundefined =>
      have := hsome (k + 1)
      simp [alias?_succ_eq_none_of_undefined hname hundefined] at this
    | recursive => exact ⟨_, rfl⟩

/-- The chain of a recursive reference is the names up to the first one that is repeated, which is the
last one that is looked up. -/
theorem chain_of_resolve_eq_recursive (h : m.resolve t = .error (.recursive chain)) :
    (∃ k, IsLeast {k | ∃ j < k, m.aliasName? t j = m.aliasName? t k} k ∧
      chain.map some = (List.range (k + 1)).map (m.aliasName? t) ∧
      (m.resolveCounted [] t).2 = k + 1) ∧ chain.dropLast.Nodup := by
  obtain ⟨steps, houtcome, hsteps⟩ := exists_outcome h
  rw [hsteps]
  cases houtcome with
  | @recursive k chain name hchain hname hrepeat =>
    refine ⟨⟨k, hchain.isLeast_repeat hname hrepeat, ?_, rfl⟩, ?_⟩
    · simp [List.range_succ, hchain.names, hname]
    · simpa using hchain.nodup

/-- Resolving follows references: it returns the declaration with which the sequence of declarations
ends, it fails with a name if the sequence ends with a reference to this name, which is not defined,
and it fails with a chain if the sequence never ends. The chain has the names of the sequence up to
the first one that is repeated. As many references are looked up as there are up to the end, or up to
the first name that is repeated, which is at most one more than the module has names of types. -/
theorem resolve_follows_references (m : Module) (t : TypeDecl) :
    (∀ u, m.resolve t = .ok u ↔ ∃ k, m.alias? t k = some u ∧ u.isReference = false) ∧
    (∀ name, m.resolve t = .error (.unresolved name) ↔
      ∃ k qualifier, m.alias? t k = some (.reference ⟨qualifier, name⟩) ∧ name ∉ m.typeNames) ∧
    ((∃ chain, m.resolve t = .error (.recursive chain)) ↔ ∀ k, (m.alias? t k).isSome) ∧
    (∀ chain, m.resolve t = .error (.recursive chain) →
      (∃ k, IsLeast {k | ∃ j < k, m.aliasName? t j = m.aliasName? t k} k ∧
        chain.map some = (List.range (k + 1)).map (m.aliasName? t)) ∧
      chain.dropLast.Nodup ∧
      chain.IsChain fun a b => ∃ qualifier,
        m.lastDeclaration? a = some (.reference ⟨qualifier, b⟩)) ∧
    (m.resolveCounted [] t).1 = m.resolve t ∧
    (∀ k u, m.alias? t k = some u → u.isReference = false → (m.resolveCounted [] t).2 = k) ∧
    (∀ k qualifier name, m.alias? t k = some (.reference ⟨qualifier, name⟩) →
      name ∉ m.typeNames → (m.resolveCounted [] t).2 = k + 1) ∧
    ((∀ k, (m.alias? t k).isSome) → ∀ k,
      IsLeast {k | ∃ j < k, m.aliasName? t j = m.aliasName? t k} k →
        (m.resolveCounted [] t).2 = k + 1) ∧
    (m.resolveCounted [] t).2 ≤ m.typeNames.toFinset.card + 1 := by
  refine ⟨fun _ => resolve_eq_ok_iff, fun _ => resolve_eq_unresolved_iff,
    exists_resolve_eq_recursive_iff, fun chain h => ?_, fst_resolveCounted m [] t,
    fun k u hu hreference => (resolve_eq_of_not_isReference hu hreference).2,
    fun k qualifier name hk hundefined => ?_, fun hsome k hleast => ?_, ?_⟩
  · obtain ⟨⟨k, hleast, hnames, -⟩, hnodup⟩ := chain_of_resolve_eq_recursive h
    refine ⟨⟨k, hleast, hnames⟩, hnodup, (isChain_of_names hnames).imp fun a b hab => ?_⟩
    obtain ⟨u, hu, hb⟩ := Option.bind_eq_some_iff.1 hab
    obtain ⟨qualifier, rfl⟩ := TypeDecl.target?_eq_some_iff.1 hb
    exact ⟨qualifier, hu⟩
  · rw [← lastDeclaration?_eq_none_iff] at hundefined
    exact (resolve_eq_of_undefined hk hundefined).2
  · obtain ⟨chain, h⟩ := exists_resolve_eq_recursive_iff.2 hsome
    obtain ⟨⟨k', hleast', -, hsteps⟩, -⟩ := chain_of_resolve_eq_recursive h
    rw [hsteps, Nat.le_antisymm (hleast.2 hleast'.1) (hleast'.2 hleast.1)]
  · have hsteps := snd_resolveCounted_le m [] t
    have hnames := length_unvisited_nil_le m
    omega

/-- `B` stands for the second of its declarations, and therefore `A` for itself. -/
theorem resolve_follows_references_shadowed :
    ∀ k, (alias? ⟨"M", [.type "A" (.reference ⟨none, "B"⟩), .type "B" (.simple "NULL" none),
      .type "B" (.reference ⟨some "N", "A"⟩)]⟩ (.reference ⟨none, "A"⟩) k).isSome :=
  (resolve_follows_references _ _).2.2.1.1 ⟨["A", "B", "A"], by
    simp [resolve, resolveAfter_reference, userType?_eq, lastDeclaration?, Assignment.declares?]⟩

end Module

end AsnModel
