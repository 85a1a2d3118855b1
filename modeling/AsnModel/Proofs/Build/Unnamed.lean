import AsnModel.Proofs.Build.Stepwise

/-!
# Builds that do not name members

Where anonymous members are not named, a build goes as it does where they are, up to the first one
of them, which it refuses. It never draws a number.
-/

namespace AsnModel

namespace BuildM

variable {α : Type} {x : BuildM α} {Q : α → Prop}

/-- A build that names members draws numbers exactly if the same build without naming them comes to
an anonymous member. -/
theorem Stepwise.exists_draws (h : x.Stepwise Q) (stem : String) (drawn : Nat) :
    ∃ ns r, Draws ⟨true, stem⟩ x drawn ns r ∧ (∀ a, r = .ok a → Q a) ∧
      x.runFrom ⟨false, stem⟩ drawn =
        (if ns = [] then r else .error (.malformed .namedType .unnamedMember), drawn) := by
  induction h generalizing drawn with
  | @pure _ _ a hQ =>
    refine ⟨[], .ok a, .pure a drawn, ?_, rfl⟩
    rintro _ ⟨⟩
    exact hQ
  | throw e => exact ⟨[], .error e, .throw e drawn, nofun, rfl⟩
  | name =>
    exact ⟨_, _, .bind (.options drawn) (.placeholder drawn), fun _ _ => trivial, rfl⟩
  | bind _ _ ihx ihf =>
    obtain ⟨ns, r, hdraws, hR, hrun⟩ := ihx drawn
    cases r with
    | error e =>
      refine ⟨ns, .error e, .bindError hdraws, nofun, ?_⟩
      rw [runFrom_bind, hrun]
      split_ifs <;> rfl
    | ok a =>
      obtain ⟨ns', r', hdraws', hQ, hrun'⟩ := ihf a (hR a rfl) (drawn + ns.length)
      refine ⟨ns ++ ns', r', .bind hdraws hdraws', hQ, ?_⟩
      rw [runFrom_bind, hrun]
      -- A number drawn by the first part is an anonymous member that the second part never sees.
      cases ns with
      | nil => simpa using hrun'
      | cons n ns => rfl

end BuildM

/-- Building without naming members draws no number. It comes to the same as building with naming
them if that draws no number either, and otherwise it refuses an anonymous member, whatever else is
wrong. -/
theorem build_without_naming (stem : String) (drawn : Nat) :
    (∀ t : ParseTree, ∃ ns r, BuildM.Draws ⟨true, stem⟩ t.build drawn ns r ∧
      t.build.runFrom ⟨true, stem⟩ drawn = (r, drawn + ns.length) ∧
      t.build.runFrom ⟨false, stem⟩ drawn =
        (if ns = [] then r else .error (.malformed .namedType .unnamedMember), drawn)) ∧
    (∀ ts : List ParseTree, ∃ ns r, BuildM.Draws ⟨true, stem⟩ (buildForest ts) drawn ns r ∧
      (buildForest ts).runFrom ⟨true, stem⟩ drawn = (r, drawn + ns.length) ∧
      (buildForest ts).runFrom ⟨false, stem⟩ drawn =
        (if ns = [] then r else .error (.malformed .namedType .unnamedMember), drawn)) := by
  refine ⟨fun t => ?_, fun ts => ?_⟩
  · obtain ⟨ns, r, hdraws, -, hrun⟩ := t.stepwise_build.exists_draws stem drawn
    exact ⟨ns, r, hdraws, hdraws.runFrom_eq, hrun⟩
  · obtain ⟨ns, r, hdraws, -, hrun⟩ := (stepwise_buildForest ts).exists_draws stem drawn
    exact ⟨ns, r, hdraws, hdraws.runFrom_eq, hrun⟩

/-- An anonymous member of no type is refused for the one reason or for the other. -/
example :
    let tree : ParseTree := .node .namedType [.tree (.node .type
      [.tree (.node .extensionMarker [])])]
    tree.build.runFrom ⟨true, "x"⟩ 4 =
        (.error (.malformed .namedType (.wrongCategory "a type" .extensionMarker)), 5) ∧
      tree.build.runFrom ⟨false, "x"⟩ 4 = (.error (.malformed .namedType .unnamedMember), 4) :=
  ⟨rfl, rfl⟩

end AsnModel
