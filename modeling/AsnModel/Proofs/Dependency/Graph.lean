import AsnModel.Dependency.Graph
import AsnModel.Proofs.OrderedMap
import Mathlib.Data.List.Induction

/-!
# The graph of a list of definitions

The graph of a list of definitions has the defined names as keys, each with everything that any
definition of the name refers to. Without self-references and undefined names, its edges are the
dependencies between defined names.

## Main definitions

* `DependsOn` — a definition of one name refers to another name that is defined.
* `properReferences` — the references of a definition that make such dependencies.
* `DependencyGraph.Refers` — an edge of a graph.
* `DependencyGraph.IsProper` — graphs without repeated, self- and undefined references.
-/

namespace AsnModel

universe u

/-! ## Removing repetitions -/

section EraseDups

variable {α : Type u} [BEq α] [LawfulBEq α]

theorem eraseDups_concat [DecidableEq α] (l : List α) (a : α) :
    (l ++ [a]).eraseDups = if a ∈ l then l.eraseDups else l.eraseDups ++ [a] := by
  by_cases h : a ∈ l <;> simp [List.eraseDups_append, List.eraseDups_cons, List.removeAll, h]

theorem eraseDups_of_nodup {l : List α} (h : l.Nodup) : l.eraseDups = l := by
  induction l with
  | nil => rfl
  | cons a as ih =>
    obtain ⟨ha, has⟩ := List.nodup_cons.1 h
    have hkeep : as.filter (fun b => !b == a) = as := by
      rw [List.filter_eq_self]
      intro b hb
      simpa using ne_of_mem_of_not_mem hb ha
    rw [List.eraseDups_cons, hkeep, ih has]

theorem eraseDups_eraseDups_append (l l' : List α) :
    (l.eraseDups ++ l').eraseDups = (l ++ l').eraseDups := by
  have hrest : l'.removeAll l.eraseDups = l'.removeAll l := by
    refine List.filter_congr fun a _ => ?_
    simp
  rw [List.eraseDups_append, List.eraseDups_append, eraseDups_of_nodup (nodup_eraseDups l), hrest]

theorem filter_eraseDups [DecidableEq α] (p : α → Bool) (l : List α) :
    l.eraseDups.filter p = (l.filter p).eraseDups := by
  induction l using List.reverseRecOn with
  | nil => rfl
  | append_singleton l a ih =>
    rw [eraseDups_concat, List.filter_append]
    by_cases hp : p a
    · rw [List.filter_singleton, hp, Bool.cond_true, eraseDups_concat, ← ih]
      by_cases ha : a ∈ l <;> simp [ha, hp]
    · by_cases ha : a ∈ l <;> simp [ha, hp, ih]

theorem eraseDups_map [DecidableEq α] {β : Type*} [DecidableEq β] {f : α → β}
    (hf : Function.Injective f) (l : List α) : (l.map f).eraseDups = l.eraseDups.map f := by
  induction l using List.reverseRecOn with
  | nil => rfl
  | append_singleton l a ih =>
    rw [List.map_append, List.map_singleton, eraseDups_concat, eraseDups_concat, ih]
    by_cases ha : a ∈ l <;> simp [ha, hf.eq_iff]

/-- Keys that each stand for repetitions of themselves are what is left. -/
theorem eraseDups_flatMap_of_nodup {keys : List α} {f : α → List α} (hkeys : keys.Nodup)
    (hne : ∀ k ∈ keys, f k ≠ []) (hf : ∀ k ∈ keys, ∀ a ∈ f k, a = k) :
    (keys.flatMap f).eraseDups = keys := by
  induction keys with
  | nil => rfl
  | cons k ks ih =>
    obtain ⟨hk, hks⟩ := List.nodup_cons.1 hkeys
    obtain ⟨hne, hnes⟩ := List.forall_mem_cons.1 hne
    obtain ⟨hf, hfs⟩ := List.forall_mem_cons.1 hf
    have hfirst : (f k).eraseDups = [k] := by
      obtain ⟨a, as, hcons⟩ := List.exists_cons_of_ne_nil hne
      rw [hcons] at hf ⊢
      obtain ⟨rfl, has⟩ := List.forall_mem_cons.1 hf
      have hrest : as.filter (fun b => !b == a) = [] := by
        simpa [List.filter_eq_nil_iff] using has
      rw [List.eraseDups_cons, hrest, List.eraseDups_nil]
    have hothers : (ks.flatMap f).removeAll (f k) = ks.flatMap f := by
      refine List.filter_eq_self.2 fun a ha => ?_
      obtain ⟨k', hk', ha⟩ := List.mem_flatMap.1 ha
      obtain rfl := hfs k' hk' a ha
      simpa using fun hmem => hk (hf a hmem ▸ hk')
    rw [List.flatMap_cons, List.eraseDups_append, hfirst, hothers, ih hks hnes hfs,
      List.singleton_append]

/-- What is left when repetitions are removed stands in the order of first occurrence. -/
theorem pairwise_idxOf_eraseDups [DecidableEq α] (l : List α) :
    l.eraseDups.Pairwise fun a b => l.idxOf a < l.idxOf b := by
  induction l using List.reverseRecOn with
  | nil => simp
  | append_singleton l x ih =>
    have hold : l.eraseDups.Pairwise fun a b => (l ++ [x]).idxOf a < (l ++ [x]).idxOf b := by
      refine ih.imp_of_mem fun {a b} ha hb hlt => ?_
      rwa [List.idxOf_append_of_mem (List.mem_eraseDups.1 ha),
        List.idxOf_append_of_mem (List.mem_eraseDups.1 hb)]
    rw [eraseDups_concat]
    split_ifs with hx
    · exact hold
    · refine List.pairwise_append.2 ⟨hold, by simp, fun a ha b hb => ?_⟩
      have hal := List.mem_eraseDups.1 ha
      rw [List.mem_singleton.1 hb, List.idxOf_append_of_mem hal, List.idxOf_append_of_notMem hx]
      exact Nat.lt_add_right _ (List.idxOf_lt_length_of_mem hal)

end EraseDups

/-! ## Keys and values -/

section Definitions

variable {α : Type u} [Dependent α]

theorem dependencyGraph_concat (items : List α) (d : α) :
    dependencyGraph (items ++ [d]) = (dependencyGraph items).alter (Dependent.name d)
      fun references => (references.getD [] ++ Dependent.references d).eraseDups := by
  simp [dependencyGraph]

/-- The keys of the graph are the defined names, in the order of their first definition. -/
theorem keys_dependencyGraph (items : List α) :
    (dependencyGraph items).keys = (items.map Dependent.name).eraseDups := by
  induction items using List.reverseRecOn with
  | nil => rfl
  | append_singleton items d ih =>
    rw [dependencyGraph_concat, OrderedMap.keys_alter, ih, List.map_append, List.map_singleton,
      eraseDups_concat]
    simp only [List.mem_eraseDups]

theorem mem_keys_dependencyGraph (items : List α) (name : String) :
    name ∈ (dependencyGraph items).keys ↔ name ∈ items.map Dependent.name := by
  rw [keys_dependencyGraph, List.mem_eraseDups]

/-- A defined name finds everything that its definitions refer to, in the order of first use. -/
theorem get?_dependencyGraph (items : List α) (name : String) :
    (dependencyGraph items).get? name =
      if name ∈ items.map Dependent.name then
        some ((items.filter fun d => Dependent.name d = name).flatMap
          Dependent.references).eraseDups
      else none := by
  induction items using List.reverseRecOn with
  | nil => rfl
  | append_singleton items d ih =>
    rw [dependencyGraph_concat, OrderedMap.get?_alter]
    by_cases hd : name = Dependent.name d
    · subst hd
      by_cases hmem : Dependent.name d ∈ items.map Dependent.name
      · simp [ih, hmem, List.filter_append, eraseDups_eraseDups_append]
      · have hnone : items.filter (fun d' => Dependent.name d' = Dependent.name d) = [] := by
          simpa [List.filter_eq_nil_iff] using hmem
        simp [ih, hmem, List.filter_append, hnone]
    · simp [ih, hd, Ne.symm hd, List.filter_append]

end Definitions

/-! ## Edges -/

namespace DependencyGraph

/-- `a` refers to `b` in the graph. -/
def Refers (g : DependencyGraph) (a b : String) : Prop :=
  ∃ references, (a, references) ∈ g.entries ∧ b ∈ references

/-- Nothing is listed twice, and no name refers to itself or to a name that is not a key. -/
structure IsProper (g : DependencyGraph) : Prop where
  nodup : ∀ {a references}, (a, references) ∈ g.entries → references.Nodup
  ne : ∀ {a b}, g.Refers a b → b ≠ a
  mem_keys : ∀ {a b}, g.Refers a b → b ∈ g.keys

theorem Refers.left_mem {g : DependencyGraph} {a b : String} (h : g.Refers a b) : a ∈ g.keys :=
  let ⟨_, hmem, _⟩ := h
  OrderedMap.mem_keys_of_mem_entries hmem

theorem refers_iff_of_mem {g : DependencyGraph} {a b : String} {references : List String}
    (h : (a, references) ∈ g.entries) : g.Refers a b ↔ b ∈ references := by
  refine ⟨fun ⟨rs, hrs, hb⟩ => ?_, fun hb => ⟨references, h, hb⟩⟩
  rw [← OrderedMap.get?_eq_some_iff] at h hrs
  rwa [Option.some.inj (h.symm.trans hrs)]

theorem refers_proper_iff (g : DependencyGraph) (a b : String) :
    g.proper.Refers a b ↔ g.Refers a b ∧ b ∈ g.keys ∧ b ≠ a := by
  simp only [Refers, proper, OrderedMap.mem_entries_mapValues]
  constructor
  · rintro ⟨_, ⟨rs, hrs, rfl⟩, hb⟩
    simp only [List.mem_filter, Bool.and_eq_true, decide_eq_true_eq, OrderedMap.contains_iff] at hb
    exact ⟨⟨rs, hrs, hb.1⟩, hb.2.2, hb.2.1⟩
  · rintro ⟨⟨rs, hrs, hb⟩, hkey, hne⟩
    exact ⟨_, ⟨rs, hrs, rfl⟩, by simp [hb, hkey, hne]⟩

@[simp] theorem keys_proper (g : DependencyGraph) : g.proper.keys = g.keys :=
  OrderedMap.keys_mapValues _ g

end DependencyGraph

section Definitions

variable {α : Type u} [Dependent α]

/-- A definition of `a` refers to `b`, which is the name of a definition as well, but another
name. -/
def DependsOn (items : List α) (a b : String) : Prop :=
  (∃ d ∈ items, Dependent.name d = a ∧ b ∈ Dependent.references d) ∧
    b ∈ items.map Dependent.name ∧ b ≠ a

theorem refers_dependencyGraph_iff (items : List α) (a b : String) :
    (dependencyGraph items).Refers a b ↔
      ∃ d ∈ items, Dependent.name d = a ∧ b ∈ Dependent.references d := by
  simp only [DependencyGraph.Refers, ← OrderedMap.get?_eq_some_iff, get?_dependencyGraph]
  constructor
  · rintro ⟨rs, hrs, hb⟩
    split_ifs at hrs
    obtain rfl := Option.some.inj hrs
    simpa [and_assoc] using hb
  · rintro ⟨d, hd, rfl, hb⟩
    rw [if_pos (List.mem_map_of_mem hd)]
    refine ⟨_, rfl, ?_⟩
    simpa [and_assoc] using ⟨d, hd, rfl, hb⟩

/-- The edges of the proper graph are the dependencies between defined names. -/
theorem refers_proper_dependencyGraph_iff (items : List α) (a b : String) :
    (dependencyGraph items).proper.Refers a b ↔ DependsOn items a b := by
  rw [DependencyGraph.refers_proper_iff, refers_dependencyGraph_iff, mem_keys_dependencyGraph,
    DependsOn]

/-- The references of a definition to other names that are defined. -/
def properReferences (items : List α) (d : α) : List String :=
  (Dependent.references d).filter fun n => n ≠ Dependent.name d && n ∈ items.map Dependent.name

/-- In the proper graph, a defined name finds the other defined names that its definitions refer
to, in the order of first use. -/
theorem get?_proper_dependencyGraph (items : List α) (name : String) :
    (dependencyGraph items).proper.get? name =
      if name ∈ items.map Dependent.name then
        some ((items.filter fun d => Dependent.name d = name).flatMap
          (properReferences items)).eraseDups
      else none := by
  unfold DependencyGraph.proper
  rw [OrderedMap.get?_mapValues, get?_dependencyGraph]
  split_ifs with hname
  · rw [Option.map_some, filter_eraseDups, List.filter_flatMap]
    refine congrArg (fun l => some (List.eraseDups l)) (List.flatMap_congr fun d hd => ?_)
    obtain rfl : Dependent.name d = name := by simpa using (List.mem_filter.1 hd).2
    refine List.filter_congr fun n _ => ?_
    simp [OrderedMap.contains, mem_keys_dependencyGraph]
  · rfl

theorem isProper_proper_dependencyGraph (items : List α) :
    (dependencyGraph items).proper.IsProper where
  nodup h := by
    obtain ⟨rs, hrs, rfl⟩ := (OrderedMap.mem_entries_mapValues _ _ _ _).1 h
    rw [← OrderedMap.get?_eq_some_iff, get?_dependencyGraph] at hrs
    split_ifs at hrs
    obtain rfl := Option.some.inj hrs
    exact (nodup_eraseDups _).filter _
  ne h := ((DependencyGraph.refers_proper_iff _ _ _).1 h).2.2
  mem_keys h := by
    rw [DependencyGraph.keys_proper]
    exact ((DependencyGraph.refers_proper_iff _ _ _).1 h).2.1

end Definitions

end AsnModel
