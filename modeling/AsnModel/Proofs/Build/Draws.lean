import AsnModel.Proofs.Build.Success

/-!
# Drawing numbers

Which numbers a build draws from its sequence, and what it means that two runs of a build agree:
with other options, or after other numbers have been drawn, they come to the same outcome and draw
equally many numbers.

## Main definitions

* `BuildM.Draws` — a run of a build draws some numbers and comes to some outcome.
* `SameOutcome` — two runs both succeed, with related results, or both fail with one error.
* `BuildM.Agree` — all runs with these options agree.
-/

namespace AsnModel

/-- The outcomes of two runs match: either the results are related, or both report an error that
satisfies `E`, and it is the same one. -/
inductive SameOutcome {α : Type} (E : BuildError → Prop) (R : α → α → Prop) :
    Except BuildError α → Except BuildError α → Prop where
  | ok {a a' : α} (h : R a a') : SameOutcome E R (.ok a) (.ok a')
  | error {e : BuildError} (h : E e) : SameOutcome E R (.error e) (.error e)

namespace BuildM

variable {α β : Type} {o o' : BuildOptions} {s s' : Nat} {E E' : BuildError → Prop}

/-- After `s` numbers, the run of a build draws the numbers `ns`, one after the other, and comes to
the outcome `r`. Only the name of an anonymous member takes a number. -/
inductive Draws (o : BuildOptions) :
    {α : Type} → BuildM α → Nat → List Nat → Except BuildError α → Prop where
  | pure {α : Type} (a : α) (s : Nat) : Draws o (pure a) s [] (.ok a)
  | throw {α : Type} (e : BuildError) (s : Nat) : Draws o (throw e : BuildM α) s [] (.error e)
  | options (s : Nat) : Draws o read s [] (.ok o)
  | placeholder (s : Nat) :
    Draws o placeholder s [s + 1] (.ok (placeholderName o.stem (s + 1)))
  | bind {α β : Type} {x : BuildM α} {f : α → BuildM β} {s : Nat} {ns ns' : List Nat} {a : α}
      {r : Except BuildError β} (hx : Draws o x s ns (.ok a))
      (hf : Draws o (f a) (s + ns.length) ns' r) : Draws o (x >>= f) s (ns ++ ns') r
  | bindError {α β : Type} {x : BuildM α} {f : α → BuildM β} {s : Nat} {ns : List Nat}
      {e : BuildError} (hx : Draws o x s ns (.error e)) : Draws o (x >>= f) s ns (.error e)

namespace Draws

variable {x : BuildM α} {ns : List Nat} {r : Except BuildError α}

/-- Every number that is drawn counts. -/
theorem runFrom_eq (h : Draws o x s ns r) : x.runFrom o s = (r, s + ns.length) := by
  induction h with
  | pure | throw | options | placeholder => rfl
  | bind _ _ ihx ihf =>
    rw [runFrom_bind, ihx, List.length_append, ← Nat.add_assoc]
    exact ihf
  | bindError _ ihx => rw [runFrom_bind, ihx]

/-- The numbers that are drawn follow one another, from the first one on that is left. -/
theorem eq_range' (h : Draws o x s ns r) : ns = List.range' (s + 1) ns.length := by
  induction h with
  | pure | throw | options | placeholder => rfl
  | @bind _ _ _ _ s ns ns' _ _ _ _ ihx ihf =>
    rw [List.length_append, ← List.range'_append_1, ← ihx, Nat.add_right_comm, ← ihf]
  | bindError _ ihx => exact ihx

/-- A run draws the same numbers and comes to the same outcome each time. -/
theorem unique {ns' : List Nat} {r' : Except BuildError α} (h : Draws o x s ns r)
    (h' : Draws o x s ns' r') : ns = ns' ∧ r = r' := by
  obtain ⟨hr, hlength⟩ := Prod.mk.inj (h.runFrom_eq.symm.trans h'.runFrom_eq)
  rw [h.eq_range', h'.eq_range', Nat.add_left_cancel hlength]
  exact ⟨rfl, hr⟩

end Draws

/-- Two runs, the first one of `x` with the options `o`, and the second one of `x'` with `o'`, agree
wherever they start: they draw equally many numbers, and their outcomes match. -/
def Agree (o o' : BuildOptions) (E : BuildError → Prop) (R : α → α → Prop) (x x' : BuildM α) :
    Prop :=
  ∀ s s', ∃ ns ns' r r', Draws o x s ns r ∧ Draws o' x' s' ns' r' ∧ ns.length = ns'.length ∧
    SameOutcome E R r r'

namespace Agree

variable {R R' : α → α → Prop} {x x' : BuildM α}

theorem pure {a a' : α} (h : R a a') : Agree o o' E R (pure a) (pure a') := fun s s' =>
  ⟨_, _, _, _, .pure a s, .pure a' s', rfl, .ok h⟩

theorem throw {e : BuildError} (h : E e) :
    Agree o o' E R (throw e : BuildM α) (throw e) := fun s s' =>
  ⟨_, _, _, _, .throw e s, .throw e s', rfl, .error h⟩

theorem options : Agree o o' E (fun a a' => a = o ∧ a' = o') read read := fun s s' =>
  ⟨_, _, _, _, .options s, .options s', rfl, .ok ⟨rfl, rfl⟩⟩

theorem placeholder : Agree o o' E (fun _ _ => True) placeholder placeholder := fun s s' =>
  ⟨_, _, _, _, .placeholder s, .placeholder s', rfl, .ok trivial⟩

theorem bind {S : β → β → Prop} {f f' : α → BuildM β} (hx : Agree o o' E R x x')
    (hf : ∀ a a', R a a' → Agree o o' E S (f a) (f' a')) :
    Agree o o' E S (x >>= f) (x' >>= f') := by
  intro s s'
  obtain ⟨ns, ns', _, _, hns, hns', hlength, houtcome⟩ := hx s s'
  cases houtcome with
  | ok ha =>
    obtain ⟨ms, ms', r, r', hms, hms', hlength', houtcome⟩ := hf _ _ ha (s + ns.length)
      (s' + ns'.length)
    exact ⟨_, _, r, r', .bind hns hms, .bind hns' hms', by simp [hlength, hlength'], houtcome⟩
  | error he => exact ⟨_, _, _, _, .bindError hns, .bindError hns', hlength, .error he⟩

theorem mono (h : Agree o o' E R x x') (hE : ∀ e, E e → E' e) (hR : ∀ a a', R a a' → R' a a') :
    Agree o o' E' R' x x' := by
  intro s s'
  obtain ⟨ns, ns', r, r', hns, hns', hlength, houtcome⟩ := h s s'
  refine ⟨ns, ns', r, r', hns, hns', hlength, ?_⟩
  cases houtcome with
  | ok ha => exact .ok (hR _ _ ha)
  | error he => exact .error (hE _ he)

/-- A build that succeeds does so wherever it starts. -/
theorem succeeds (h : Agree o o' E R x x') : Agree o o' E (fun a a' => R a a' ∧
    ∀ t, ∃ b t', x.Gives o t b t' ∧ R b a') x x' := by
  intro s s'
  obtain ⟨ns, ns', r, r', hns, hns', hlength, houtcome⟩ := h s s'
  refine ⟨ns, ns', r, r', hns, hns', hlength, ?_⟩
  cases houtcome with
  | error he => exact .error he
  | @ok a a' ha =>
    refine .ok ⟨ha, fun t => ?_⟩
    obtain ⟨ms, ms', q, q', hms, hms', -, houtcome⟩ := h t s'
    obtain ⟨rfl, -⟩ : q' = .ok a' ∧ _ := by
      simpa using hms'.runFrom_eq.symm.trans hns'.runFrom_eq
    cases houtcome with
    | ok hb => exact ⟨_, _, hms.runFrom_eq, hb⟩

/-- Two runs either both succeed, with related results, or both fail with the same error. In either
case they draw equally many numbers. -/
theorem runFrom (h : Agree o o' E R x x') (s s' : Nat) :
    ∃ count,
      (∃ a a', x.runFrom o s = (.ok a, s + count) ∧ x'.runFrom o' s' = (.ok a', s' + count) ∧
        R a a') ∨
      ∃ e, x.runFrom o s = (.error e, s + count) ∧ x'.runFrom o' s' = (.error e, s' + count) := by
  obtain ⟨ns, ns', _, _, hns, hns', hlength, houtcome⟩ := h s s'
  refine ⟨ns.length, ?_⟩
  cases houtcome with
  | ok ha => exact .inl ⟨_, _, hns.runFrom_eq, hlength ▸ hns'.runFrom_eq, ha⟩
  | error he => exact .inr ⟨_, hns.runFrom_eq, hlength ▸ hns'.runFrom_eq⟩

theorem exists_draws (h : Agree o o' E R x x') (s : Nat) : ∃ ns r, Draws o x s ns r := by
  obtain ⟨ns, _, r, _, hdraws, -⟩ := h s s
  exact ⟨ns, r, hdraws⟩

/-- Any two runs match. -/
theorem of_draws (h : Agree o o' E R x x') {ns ns' : List Nat} {r r' : Except BuildError α}
    (hx : Draws o x s ns r) (hx' : Draws o' x' s' ns' r') :
    ns.length = ns'.length ∧ SameOutcome E R r r' := by
  obtain ⟨ms, ms', q, q', hms, hms', hlength, houtcome⟩ := h s s'
  obtain ⟨rfl, rfl⟩ := hx.unique hms
  obtain ⟨rfl, rfl⟩ := hx'.unique hms'
  exact ⟨hlength, houtcome⟩

/-- The results of two runs that succeed are related. -/
theorem of_gives (h : Agree o o' E R x x') {a a' : α} {t t' : Nat} (hx : x.Gives o s a t)
    (hx' : x'.Gives o' s' a' t') : R a a' := by
  obtain ⟨_, ⟨b, b', hb, hb', hR⟩ | ⟨e, he, -⟩⟩ := h.runFrom s s'
  · obtain ⟨rfl, -⟩ : b = a ∧ _ := by simpa using hb.symm.trans hx
    obtain ⟨rfl, -⟩ : b' = a' ∧ _ := by simpa using hb'.symm.trans hx'
    exact hR
  · simpa using he.symm.trans hx

end Agree

end BuildM

end AsnModel
