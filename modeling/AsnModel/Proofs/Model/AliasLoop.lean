import AsnModel.Model.Node
import AsnModel.Proofs.Dependency.Agreement
import AsnModel.Proofs.Model.Resolve

/-!
# Loops of references as cycles of dependencies

A chain of references that comes back to a name goes round in a loop. Every type of the loop refers
to the next one, and thereby depends on it, so a loop of several names is a cycle of dependencies:
there is no topological order, and all of the loop lies in one component. Only a type that is
declared as a reference to itself makes a loop that a topological order does not mind.

## Main definitions

* `aliasLoop` — the part of a chain that is gone round.
* `Module.AliasOf` — a type is declared as a reference to another one.
-/

namespace AsnModel

open Relation

/-- The loop of a chain that comes back to the name it ends with: the names from the first
occurrence of the last one on. -/
def aliasLoop (chain : List String) : List String :=
  chain.dropWhile fun name => some name ≠ chain.getLast?

theorem aliasLoop_suffix (chain : List String) : aliasLoop chain <:+ chain :=
  List.dropWhile_suffix _

theorem aliasLoop_eq {before between : List String} {name : String} (h : name ∉ before) :
    aliasLoop (before ++ (name :: between) ++ [name]) = (name :: between) ++ [name] := by
  have hbefore : ∀ n ∈ before, decide (some n ≠ some name) = true := by
    intro n hn
    simpa using ne_of_mem_of_not_mem hn h
  rw [aliasLoop, List.getLast?_concat, List.append_assoc, List.dropWhile_append_of_pos hbefore]
  simp

/-- Going round a closed chain leads from any of its members to any other. -/
theorem reflTransGen_of_mem_closed {β : Type*} {r : β → β → Prop} {a : β} {l : List β}
    (h : ((a :: l) ++ [a]).IsChain (ReflTransGen r)) {x y : β}
    (hx : x ∈ (a :: l) ++ [a]) (hy : y ∈ (a :: l) ++ [a]) : ReflTransGen r x y := by
  have hpairwise := List.isChain_iff_pairwise.1 h
  have hto : ReflTransGen r x a := by
    rcases List.mem_append.1 hx with hx | hx
    · exact (List.pairwise_append.1 hpairwise).2.2 x hx a (by simp)
    · rw [List.mem_singleton.1 hx]
  have hfrom : ReflTransGen r a y := by
    rcases List.mem_cons.1 hy with rfl | hy
    · exact .refl
    · exact List.rel_of_pairwise_cons hpairwise hy
  exact hto.trans hfrom

namespace Module

variable {m : Module} {t : TypeDecl} {chain : List String} {a b : String}

/-! ## References as dependencies -/

/-- The last declaration of the type `a` is a reference to `b`. -/
def AliasOf (m : Module) (a b : String) : Prop :=
  ∃ qualifier, m.lastDeclaration? a = some (.reference ⟨qualifier, b⟩)

theorem AliasOf.mem_assignments (h : m.AliasOf a b) :
    ∃ qualifier, .type a (.reference ⟨qualifier, b⟩) ∈ m.assignments := by
  obtain ⟨qualifier, h⟩ := h
  exact ⟨qualifier, mem_assignments_of_lastDeclaration? h⟩

theorem references_alias (a b : String) (qualifier : Option String) :
    Dependent.references (Assignment.type a (.reference ⟨qualifier, b⟩)) = [b] := by
  have hinner : (Node.type (.reference ⟨qualifier, b⟩)).descendants = [] := by
    rw [Node.descendants_eq]
    rfl
  have hdescendants : (Node.assignment (.type a (.reference ⟨qualifier, b⟩))).descendants =
      [.type (.reference ⟨qualifier, b⟩)] := by
    rw [Node.descendants_eq]
    simp [Node.children, hinner]
  change Node.referencedNames _ = _
  rw [Node.referencedNames, hdescendants]
  rfl

/-- A reference to a name that is defined is a dependency, unless it is to the type itself. -/
theorem AliasOf.reflTransGen (h : m.AliasOf a b) (hb : ∃ c, m.AliasOf b c) :
    ReflTransGen (DependsOn m.assignments) a b := by
  by_cases heq : b = a
  · rw [heq]
  · obtain ⟨qualifier, ha⟩ := h.mem_assignments
    obtain ⟨c, hb⟩ := hb
    obtain ⟨qualifier', hb⟩ := hb.mem_assignments
    refine .single ⟨⟨_, ha, rfl, ?_⟩, List.mem_map_of_mem (f := Dependent.name) hb, heq⟩
    simp [references_alias]

/-! ## Loops -/

/-- Every name of a closed chain of references is declared as a reference. -/
theorem exists_aliasOf_of_mem_closed {between : List String}
    (h : ((a :: between) ++ [a]).IsChain m.AliasOf) (hb : b ∈ (a :: between) ++ [a]) :
    ∃ c, m.AliasOf b c := by
  -- The last name is the first one again, so every name has another one behind it.
  have hmem : b ∈ a :: between := by
    rcases List.mem_append.1 hb with hb | hb
    · exact hb
    · exact List.mem_cons.2 (.inl (List.mem_singleton.1 hb))
  obtain ⟨before, after, hsplit⟩ := List.append_of_mem hmem
  obtain ⟨c, rest, hafter⟩ := List.exists_cons_of_ne_nil (l := after ++ [a]) (by simp)
  have hnext : (a :: between) ++ [a] = before ++ b :: c :: rest := by
    rw [hsplit, List.append_assoc, List.cons_append, hafter]
  exact ⟨c, List.isChain_iff_forall_rel_of_append_cons_cons.1 h hnext⟩

/-- The chain of a recursive reference ends with the first name of its loop, and has no other name
twice. -/
theorem exists_loop_of_recursive (h : m.resolve t = .error (.recursive chain)) :
    ∃ before name between, chain = before ++ (name :: between) ++ [name] ∧
      aliasLoop chain = (name :: between) ++ [name] ∧ (before ++ name :: between).Nodup ∧
      (aliasLoop chain).IsChain m.AliasOf := by
  obtain ⟨steps, houtcome, -⟩ := exists_outcome h
  cases houtcome with
  | @recursive k visited name hvisited hname hrepeat =>
    have hnames : (visited ++ [name]).map some = (List.range (k + 1)).map (m.aliasName? t) := by
      simp [List.range_succ, hvisited.names, hname]
    have hchain : (visited ++ [name]).IsChain m.AliasOf := by
      refine (isChain_of_names hnames).imp fun a b hab => ?_
      obtain ⟨u, hu, hb⟩ := Option.bind_eq_some_iff.1 hab
      obtain ⟨qualifier, rfl⟩ := TypeDecl.target?_eq_some_iff.1 hb
      exact ⟨qualifier, hu⟩
    obtain ⟨before, between, rfl, hbefore⟩ := List.eq_append_cons_of_mem hrepeat
    exact ⟨before, name, between, rfl, aliasLoop_eq hbefore, hvisited.nodup,
      hchain.suffix (aliasLoop_suffix _)⟩

section Loop

variable (h : m.resolve t = .error (.recursive chain))
include h

theorem exists_aliasOf_of_mem_aliasLoop (ha : a ∈ aliasLoop chain) : ∃ b, m.AliasOf a b := by
  obtain ⟨before, name, between, -, hloop, -, haliases⟩ := exists_loop_of_recursive h
  rw [hloop] at ha haliases
  exact exists_aliasOf_of_mem_closed haliases ha

theorem exists_name_of_mem_aliasLoop (ha : a ∈ aliasLoop chain) :
    ∃ d ∈ m.assignments, d.name = a := by
  obtain ⟨b, hab⟩ := exists_aliasOf_of_mem_aliasLoop h ha
  obtain ⟨qualifier, hmem⟩ := hab.mem_assignments
  exact ⟨_, hmem, rfl⟩

/-- The names of a loop depend on each other. -/
theorem reflTransGen_of_mem_aliasLoop (ha : a ∈ aliasLoop chain) (hb : b ∈ aliasLoop chain) :
    ReflTransGen (DependsOn m.assignments) a b := by
  obtain ⟨before, name, between, -, hloop, -, haliases⟩ := exists_loop_of_recursive h
  have hdepends : (aliasLoop chain).IsChain (ReflTransGen (DependsOn m.assignments)) :=
    haliases.imp_of_mem_imp fun a b _ hb hab =>
      hab.reflTransGen (exists_aliasOf_of_mem_aliasLoop h hb)
  rw [hloop] at ha hb hdepends
  exact reflTransGen_of_mem_closed hdepends ha hb

theorem onCycle_of_mem_aliasLoop (ha : a ∈ aliasLoop chain) (hb : b ∈ aliasLoop chain)
    (hne : a ≠ b) : OnCycle (DependsOn m.assignments) a := by
  have hforth := (reflTransGen_iff_eq_or_transGen.1
    (reflTransGen_of_mem_aliasLoop h ha hb)).resolve_left hne.symm
  exact hforth.trans_left (reflTransGen_of_mem_aliasLoop h hb ha)

/-- All of a loop lies on cycles, if it has two names. -/
theorem onCycle_of_several (hseveral : ∃ a ∈ aliasLoop chain, ∃ b ∈ aliasLoop chain, a ≠ b)
    {c : String} (hc : c ∈ aliasLoop chain) : OnCycle (DependsOn m.assignments) c := by
  obtain ⟨a, ha, b, hb, hab⟩ := hseveral
  by_cases hca : c = a
  · exact onCycle_of_mem_aliasLoop h hc hb (hca ▸ hab)
  · exact onCycle_of_mem_aliasLoop h hc ha hca

/-- A loop of one name is that of a type that is declared as a reference to itself. -/
theorem exists_eq_append_of_single (hsingle : ∀ a ∈ aliasLoop chain, ∀ b ∈ aliasLoop chain, a = b) :
    ∃ visited name, chain = visited ++ [name, name] ∧ m.AliasOf name name := by
  obtain ⟨before, name, between, hchain, hloop, hnodup, haliases⟩ := exists_loop_of_recursive h
  have hbetween : between = [] := by
    refine List.eq_nil_iff_forall_not_mem.2 fun n hn => ?_
    have hname : n = name := hsingle n (by simp [hloop, hn]) name (by simp [hloop])
    have hnew : name ∉ between := (List.nodup_cons.1 (List.nodup_append.1 hnodup).2.1).1
    exact hnew (hname ▸ hn)
  subst hbetween
  refine ⟨before, name, by simpa using hchain, ?_⟩
  simpa [hloop] using haliases

end Loop

/-- A loop of several names is a cycle of dependencies: there is no topological order, its names are
among those that are reported, and if no name is assigned twice, the assignments of these names are
in one component. So if there is a topological order, the only type that refers back to itself is
one that is declared as a reference to itself. -/
theorem aliasLoop_is_dependency_cycle (h : m.resolve t = .error (.recursive chain)) :
    (∀ name ∈ aliasLoop chain, ∃ d ∈ m.assignments, d.name = name) ∧
    ((∃ a ∈ aliasLoop chain, ∃ b ∈ aliasLoop chain, a ≠ b) →
      (∃ e, topologicalSort m.assignments = .error e ∧ ∀ name ∈ aliasLoop chain, name ∈ e.names) ∧
      ((m.assignments.map Assignment.name).Nodup → ∃ c ∈ dependencySort m.assignments,
        ∀ d ∈ m.assignments, d.name ∈ aliasLoop chain → d ∈ c)) ∧
    ∀ sorted, topologicalSort m.assignments = .ok sorted →
      ∃ visited name, chain = visited ++ [name, name] ∧ m.AliasOf name name := by
  refine ⟨fun name => exists_name_of_mem_aliasLoop h, fun hseveral => ⟨?_, fun hnames => ?_⟩,
    fun sorted hsorted => ?_⟩
  · cases hsort : topologicalSort m.assignments with
    | ok sorted =>
      obtain ⟨a, ha, -⟩ := id hseveral
      exact absurd (onCycle_of_several h hseveral ha)
        ((exists_topologicalSort_eq_ok_iff _).1 ⟨sorted, hsort⟩ a)
    | error e =>
      refine ⟨e, rfl, fun name hname => (mem_names_of_topologicalSort hsort name).2 ?_⟩
      exact betweenCycles_of_onCycle (onCycle_of_several h hseveral hname)
  · obtain ⟨a, ha, -⟩ := hseveral
    obtain ⟨d, hd, rfl⟩ := exists_name_of_mem_aliasLoop h ha
    exact exists_component_of_reflTransGen hnames ⟨d, hd, ha⟩ fun a ha b hb =>
      reflTransGen_of_mem_aliasLoop h ha hb
  · refine exists_eq_append_of_single h fun a ha b hb => ?_
    by_contra hne
    exact (exists_topologicalSort_eq_ok_iff _).1 ⟨sorted, hsorted⟩ a
      (onCycle_of_mem_aliasLoop h ha hb hne)

/-- `A` leads into the loop of `B` and `C`, which a value refers to as well. -/
theorem aliasLoop_is_dependency_cycle_two_names :
    let m : Module := ⟨"M", [.type "A" (.reference ⟨none, "B"⟩), .type "B" (.reference ⟨none, "C"⟩),
      .value "v" (.reference ⟨none, "C"⟩) (.literal "1"), .type "C" (.reference ⟨some "N", "B"⟩)]⟩
    let loop := ["B", "C", "B"]
    m.resolve (.reference ⟨none, "A"⟩) = .error (.recursive ("A" :: loop)) ∧
      (∃ e, topologicalSort m.assignments = .error e ∧ ∀ name ∈ loop, name ∈ e.names) ∧
      ∃ c ∈ dependencySort m.assignments, ∀ d ∈ m.assignments, d.name ∈ loop → d ∈ c := by
  intro m loop
  have hresolve : m.resolve (.reference ⟨none, "A"⟩) = .error (.recursive ("A" :: loop)) := by cbv
  have hloop : aliasLoop ("A" :: loop) = loop := by decide
  obtain ⟨-, hcycle, -⟩ := aliasLoop_is_dependency_cycle hresolve
  rw [hloop] at hcycle
  obtain ⟨hnames, hcomponent⟩ := hcycle ⟨"B", by decide, "C", by decide, by decide⟩
  exact ⟨hresolve, hnames, hcomponent (by decide)⟩

end Module

end AsnModel
