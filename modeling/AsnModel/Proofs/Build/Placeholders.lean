import AsnModel.Proofs.Build.Diagnosis
import AsnModel.Proofs.Build.Walk

/-!
# Generated names

Anonymous members are numbered in the order of the source, without gaps. Beyond these names, a
build depends neither on the sequence that it draws from nor on what generated names begin with.

## Main definitions

* `ParseTree.namings` — how the items of the walk of a tree are named.
* `fillNames` — fill in generated names for anonymous members.
-/

namespace AsnModel

open BuildM

/-! ## Filling in names -/

/-- Names are filled in: that of an anonymous member is made of the stem and a number, which counts
the anonymous members up to this one, on from `drawn`. -/
def fillNames (stem : String) (drawn : Nat) (ns : List Naming) : List (Option String) :=
  ns.mapIdx fun i naming => match naming with
    | .noMember => none
    | .identifier name => some name
    | .anonymous => some (placeholderName stem (drawn + (ns.take (i + 1)).count .anonymous))

section Fill

variable {stem : String} {drawn drawn' : Nat} {ns : List Naming}

@[simp] theorem fillNames_nil : fillNames stem drawn [] = [] := rfl

@[simp] theorem fillNames_noMember :
    fillNames stem drawn (.noMember :: ns) = none :: fillNames stem drawn ns := by
  simp [fillNames, List.mapIdx_cons]

@[simp] theorem fillNames_identifier {name : String} :
    fillNames stem drawn (.identifier name :: ns) = some name :: fillNames stem drawn ns := by
  simp [fillNames, List.mapIdx_cons]

@[simp] theorem fillNames_anonymous :
    fillNames stem drawn (.anonymous :: ns) =
      some (placeholderName stem (drawn + 1)) :: fillNames stem (drawn + 1) ns := by
  have hcount : ∀ i, drawn + ((ns.take (i + 1)).count .anonymous + 1) =
      drawn + 1 + (ns.take (i + 1)).count .anonymous := fun i => by omega
  simp [fillNames, List.mapIdx_cons, hcount]

/-- Drawing numbers one after the other fills in the names. -/
theorem eq_fillNames {names : List (Option String)}
    (h : Threads (Naming.Takes stem) ns drawn names drawn') :
    names = fillNames stem drawn ns ∧ drawn' = drawn + ns.count .anonymous := by
  induction h with
  | nil => exact ⟨rfl, rfl⟩
  | cons head _ ih =>
    obtain ⟨rfl, rfl⟩ := ih
    cases head with
    | noMember | identifier => simp
    | anonymous => simp; omega

theorem placeholderName_injective (stem : String) : Function.Injective (placeholderName stem) := by
  intro m n h
  have hrepr : m.repr = n.repr := (String.append_right_inj stem).1 h
  have hdigits : Nat.toDigits 10 m = Nat.toDigits 10 n := by
    rw [← Nat.toList_repr, ← Nat.toList_repr, hrepr]
  rw [← @Nat.ofDigitChars_ten_toDigits m, hdigits, Nat.ofDigitChars_ten_toDigits]

/-- The names tell where the sequence stood, unless none of them is generated. -/
theorem fillNames_eq_iff :
    fillNames stem drawn ns = fillNames stem drawn' ns ↔ drawn = drawn' ∨ .anonymous ∉ ns := by
  constructor
  · intro h
    induction ns with
    | nil => exact .inr (by simp)
    | cons naming ns ih =>
      cases naming with
      | noMember | identifier => simpa using ih (by simpa using h)
      | anonymous =>
        simp only [fillNames_anonymous, List.cons.injEq, Option.some.injEq] at h
        exact .inl (by simpa using placeholderName_injective stem h.1)
  · rintro (rfl | hnone)
    · rfl
    · induction ns with
      | nil => rfl
      | cons naming ns ih => cases naming <;> simp_all

end Fill

/-! ## The order of names -/

namespace ParseTree

/-- How the items of a walk are named, in the order of the walk. -/
def namings (t : ParseTree) : List Naming :=
  (t.ownItem?.map fun _ => t.naming).toList ++ t.visited.attach.flatMap fun ⟨u, _⟩ => u.namings
termination_by sizeOf t
decreasing_by exact sizeOf_lt_of_mem_visited ‹_›

theorem namings_eq (t : ParseTree) :
    t.namings = (t.ownItem?.map fun _ => t.naming).toList ++ t.visited.flatMap namings := by
  rw [namings]
  simp

/-- A member is named before what stands in it, and members are named from left to right. -/
theorem threads_namings (t : ParseTree) {o : BuildOptions} {s s' : Nat} {n : Node}
    (h : t.Becomes o s n s') :
    Threads (Naming.Takes o.stem) t.namings s n.identifiers s' := by
  rw [namings_eq]
  cases steps_of_becomes h with
  | @wrapper u hvisited hitem hu =>
    have : u ∈ t.visited := by simp [hvisited]
    rw [hvisited, hitem]
    simpa using threads_namings u hu
  | node hitem hname hchildren =>
    rw [hitem, Node.identifiers_eq]
    exact .cons hname (hchildren.flatMap fun u hu _ _ _ hbecomes => threads_namings u hbecomes)
termination_by sizeOf t
decreasing_by all_goals exact sizeOf_lt_of_mem_visited ‹_›

end ParseTree

variable {o : BuildOptions} {drawn drawn' : Nat}

theorem gives_buildModule_iff {t : ParseTree} {m : Module} :
    (buildModule t).Gives o drawn m drawn' ↔
      t.label = .moduleDefinition ∧ t.build.Gives o drawn (.module m) drawn' := by
  unfold buildModule
  split
  case isTrue hlabel =>
    rw [ParseTree.gives_build_iff, hlabel]
    simp [Reading.rule]
  case isFalse hlabel => simp [hlabel]

theorem gives_buildForest_iff {ts : List ParseTree} {ms : List Module} :
    (buildForest ts).Gives o drawn ms drawn' ↔
      Threads (fun t s m s' => (buildModule t).Gives o s m s') ts drawn ms drawn' := by
  unfold buildForest
  induction ts generalizing drawn ms with
  | nil => simp
  | cons t ts ih => simp [ih]

theorem identifiers_of_gives {t : ParseTree} {n : Node} (h : t.build.Gives o drawn n drawn') :
    n.identifiers = fillNames o.stem drawn t.namings ∧
      drawn' = drawn + t.namings.count .anonymous :=
  eq_fillNames (t.threads_namings (.built h))

theorem identifiers_of_gives_buildForest {ts : List ParseTree} {ms : List Module}
    (h : (buildForest ts).Gives o drawn ms drawn') :
    (ms.flatMap fun m => (Node.module m).identifiers) =
        fillNames o.stem drawn (ts.flatMap ParseTree.namings) ∧
      drawn' = drawn + (ts.flatMap ParseTree.namings).count .anonymous := by
  refine eq_fillNames ((gives_buildForest_iff.1 h).flatMap fun t _ s m s' hm => ?_)
  exact t.threads_namings (.built (gives_buildModule_iff.1 hm).2)

/-- The names of the members of a model are those of its parse tree, in the same order. Those of
anonymous members are generated: from left to right, and each one before those inside the member,
they count on from where the sequence stood, and the sequence then stands at the last of them. -/
theorem identifiers_eq_fillNames (o : BuildOptions) (drawn drawn' : Nat) :
    (∀ (t : ParseTree) (n : Node), t.build.runFrom o drawn = (.ok n, drawn') →
      (n :: n.descendants).map Node.memberName? = fillNames o.stem drawn t.namings ∧
        drawn' = drawn + t.namings.count .anonymous) ∧
    (∀ (ts : List ParseTree) (ms : List Module),
      (buildForest ts).runFrom o drawn = (.ok ms, drawn') →
      (ms.flatMap fun m => (Node.module m :: (Node.module m).descendants).map Node.memberName?) =
          fillNames o.stem drawn (ts.flatMap ParseTree.namings) ∧
        drawn' = drawn + (ts.flatMap ParseTree.namings).count .anonymous) :=
  ⟨fun _ _ => identifiers_of_gives, fun _ _ => identifiers_of_gives_buildForest⟩

set_option maxRecDepth 4096 in
/-- A CHOICE without an identifier, with an alternative without one. -/
theorem identifiers_eq_fillNames_nested :
    let tree : ParseTree := .node .namedType [.tree (.node .type [.tree (.node .choiceType
      [.token "CHOICE", .list [.node .namedType [.tree (.node .type
        [.tree (.node .simpleType [.token "NULL"])])]]])])]
    fillNames "unnamed" 4 tree.namings = [some "unnamed5", none, some "unnamed6", none] ∧
      6 = 4 + tree.namings.count .anonymous := by
  intro tree
  obtain ⟨hnames, hcount⟩ := (identifiers_eq_fillNames {} 4 6).1 tree
    (.namedType "unnamed5" (.constructed .choice "CHOICE"
      [.alternative "unnamed6" (.simple "NULL" none)])) (by rfl)
  refine ⟨hnames.symm.trans ?_, hcount⟩
  change Node.identifiers _ = _
  simp [Node.identifiers_eq, Node.children, Node.childrenOfType, Member.node, Node.memberName?]

/-! ## Two runs -/

/-- The names of their members and what is left without them determine modules. -/
theorem modules_eq_of_nameless_eq {ms ms' : List Module}
    (h : ms.map Module.nameless = ms'.map Module.nameless)
    (hnames : (ms.flatMap fun m => (Node.module m).identifiers) =
      ms'.flatMap fun m => (Node.module m).identifiers) : ms = ms' := by
  have hnodes : ms.map Node.module = ms'.map Node.module := by
    refine Node.eq_of_map_nameless_eq (fun c _ => c.eq_of_nameless_eq) ?_ ?_
    · simpa [Node.nameless, Function.comp_def] using congrArg (List.map Node.module) h
    · simpa [List.flatMap_map] using hnames
  exact List.map_injective_iff.2 (fun _ _ => Node.module.inj) hnodes

/-- Modules that are built again, from further on in the sequence, are the same only if there is no
anonymous member. -/
theorem modules_eq_iff {ts : List ParseTree} {ms ms' : List Module} {drawn₁ drawn₂ : Nat}
    (h : (buildForest ts).Gives o drawn ms drawn₁)
    (h' : (buildForest ts).Gives o drawn₁ ms' drawn₂) :
    ms = ms' ↔ .anonymous ∉ ts.flatMap ParseTree.namings := by
  obtain ⟨hnames, hcount⟩ := identifiers_of_gives_buildForest h
  obtain ⟨hnames', -⟩ := identifiers_of_gives_buildForest h'
  constructor
  · rintro rfl
    rcases fillNames_eq_iff.1 (hnames.symm.trans hnames') with hdrawn | hnone
    · exact List.count_eq_zero.1 (by omega)
    · exact hnone
  · intro hnone
    refine modules_eq_of_nameless_eq ((agree_buildForest rfl ts).of_gives h h') ?_
    rw [hnames, hnames', fillNames_eq_iff]
    exact .inr hnone

/-- Two builders that name anonymous members come to the same, but for generated names. Building
modules twice therefore gives the same modules only if there is no anonymous member. -/
theorem build_eq_up_to_names (o o' : BuildOptions) (ho : o.nameAnonymous = true)
    (ho' : o'.nameAnonymous = true) (drawn drawn' : Nat) :
    (∀ t : ParseTree, ∃ count,
      (∃ n n', t.build.runFrom o drawn = (.ok n, drawn + count) ∧
        t.build.runFrom o' drawn' = (.ok n', drawn' + count) ∧ n.nameless = n'.nameless ∧
        n.identifiers = fillNames o.stem drawn t.namings ∧
        n'.identifiers = fillNames o'.stem drawn' t.namings) ∨
      ∃ e, t.build.runFrom o drawn = (.error e, drawn + count) ∧
        t.build.runFrom o' drawn' = (.error e, drawn' + count)) ∧
    (∀ ts : List ParseTree, ∃ count,
      (∃ ms ms', (buildForest ts).runFrom o drawn = (.ok ms, drawn + count) ∧
        (buildForest ts).runFrom o' drawn' = (.ok ms', drawn' + count) ∧
        ms.map Module.nameless = ms'.map Module.nameless ∧
        (ms.flatMap fun m => (Node.module m).identifiers) =
          fillNames o.stem drawn (ts.flatMap ParseTree.namings) ∧
        (ms'.flatMap fun m => (Node.module m).identifiers) =
          fillNames o'.stem drawn' (ts.flatMap ParseTree.namings)) ∨
      ∃ e, (buildForest ts).runFrom o drawn = (.error e, drawn + count) ∧
        (buildForest ts).runFrom o' drawn' = (.error e, drawn' + count)) ∧
    (∀ (ts : List ParseTree) (ms ms' : List Module) (drawn₁ drawn₂ : Nat),
      (buildForest ts).runFrom o drawn = (.ok ms, drawn₁) →
      (buildForest ts).runFrom o drawn₁ = (.ok ms', drawn₂) →
      (ms = ms' ↔ .anonymous ∉ ts.flatMap ParseTree.namings)) := by
  have halike : o.nameAnonymous = o'.nameAnonymous := ho.trans ho'.symm
  refine ⟨fun t => ?_, fun ts => ?_, fun ts ms ms' drawn₁ drawn₂ => modules_eq_iff⟩
  · obtain ⟨count, ⟨n, n', hn, hn', hnameless⟩ | herror⟩ :=
      BuildM.Agree.runFrom (t.agrees halike) drawn drawn'
    · exact ⟨count, .inl ⟨n, n', hn, hn', hnameless, (identifiers_of_gives hn).1,
        (identifiers_of_gives hn').1⟩⟩
    · exact ⟨count, .inr herror⟩
  · obtain ⟨count, ⟨ms, ms', hms, hms', hnameless⟩ | herror⟩ :=
      BuildM.Agree.runFrom (agree_buildForest halike ts) drawn drawn'
    · exact ⟨count, .inl ⟨ms, ms', hms, hms', hnameless,
        (identifiers_of_gives_buildForest hms).1, (identifiers_of_gives_buildForest hms').1⟩⟩
    · exact ⟨count, .inr herror⟩

/-- `M`, with `A ::= SEQUENCE`, whose one component has no identifier. -/
def anonymousModule : ParseTree :=
  .node .moduleDefinition
    [.tree (.node .moduleReference [.token "M"]), .token "DEFINITIONS", .token "", .token "",
     .token "::=", .tree (.node .moduleBody [.token "", .token "", .tree (.node .assignmentList
      [.tree (.node .typeAssignment [.token "A", .token "::=", .tree (.node .sequenceType
        [.token "SEQUENCE", .list [.node .componentType [.tree (.node .namedType
          [.tree (.node .type [.tree (.node .simpleType [.token "NULL"])])])]]])])])]),
     .token "END"]

/-- What `anonymousModule` is built to. -/
def namedModule (identifier : String) : Module :=
  ⟨"M", [.type "A" (.constructed .sequence "SEQUENCE"
    [.component (.named identifier (.simple "NULL" none) .required)])]⟩

set_option maxRecDepth 8192 in
theorem build_eq_up_to_names_successive :
    namedModule "unnamed1" ≠ namedModule "unnamed2" ∧ .anonymous ∈ anonymousModule.namings := by
  have hne : namedModule "unnamed1" ≠ namedModule "unnamed2" := by simp [namedModule]
  have h := (build_eq_up_to_names {} ⟨true, "x"⟩ rfl rfl 0 5).2.2 [anonymousModule]
    [namedModule "unnamed1"] [namedModule "unnamed2"] 1 2 (by rfl) (by rfl)
  exact ⟨hne, by simpa [hne] using h⟩

end AsnModel
