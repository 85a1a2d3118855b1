import AsnModel.Proofs.Build.Placeholders
import AsnModel.Proofs.Session.History

/-!
# Generated names of a session

Whatever happens in a session, two names whose numbers come from one sequence can only be the same
if one stem ends with digits behind the other. Names with one stem are all different.

## Main definitions

* `GeneratedName` — a stem, and a number drawn from a sequence.
* `Session.Generates` — the history of a session with the names that are generated in each step.
* `Event.Shows` — where the names of a step are found in its answer.
* `DigitsBehind` — a stem is another one with digits behind it.
-/

namespace AsnModel

open BuildM

/-! ## Names that are equal -/

/-- The text `q` is `p` and at least one digit behind it. -/
def DigitsBehind (p q : String) : Prop :=
  ∃ digits : String, digits ≠ "" ∧ (∀ c ∈ digits.toList, c.isDigit) ∧ q = p ++ digits

variable {p q : String} {m n : Nat}

theorem toList_placeholderName (p : String) (n : Nat) :
    (placeholderName p n).toList = p.toList ++ Nat.toDigits 10 n := by
  rw [placeholderName, String.toList_append, Nat.toString_eq_repr, Nat.toList_repr]

theorem digitsBehind_of_append {cs : List Char} (hmn : m ≠ n) (hq : q.toList = p.toList ++ cs)
    (hm : Nat.toDigits 10 m = cs ++ Nat.toDigits 10 n) : DigitsBehind p q := by
  refine ⟨.ofList cs, ?_, fun c hc => ?_, ?_⟩
  · intro hnil
    obtain rfl : cs = [] := by simpa using congrArg String.toList hnil
    rw [List.nil_append] at hm
    exact hmn (placeholderName_injective "" (String.toList_inj.1 (by
      rw [toList_placeholderName, toList_placeholderName, hm])))
  · rw [String.toList_ofList] at hc
    apply Nat.isDigit_of_mem_toDigits (b := 10) (n := m) (by omega) (by omega)
    rw [hm]
    exact List.mem_append_left _ hc
  · apply String.toList_inj.1
    rw [hq, String.toList_append, String.toList_ofList]

/-- Two numbers make the same name only if the digits of one of them are split. -/
theorem stems_of_placeholderName_eq (hmn : m ≠ n) (h : placeholderName p m = placeholderName q n) :
    p ≠ q ∧ (DigitsBehind p q ∨ DigitsBehind q p) := by
  constructor
  · rintro rfl
    exact hmn (placeholderName_injective p h)
  · have hchars := congrArg String.toList h
    rw [toList_placeholderName, toList_placeholderName, List.append_eq_append_iff] at hchars
    rcases hchars with ⟨cs, hq, hm⟩ | ⟨cs, hp, hn⟩
    · exact .inl (digitsBehind_of_append hmn hq hm)
    · exact .inr (digitsBehind_of_append hmn.symm hp hn)

/-! ## Names of anonymous members -/

/-- The names of the items that are anonymous members, of the names of all items. -/
def anonymousNames (ns : List Naming) (names : List (Option String)) : List (Option String) :=
  ((ns.zip names).filter fun item => item.1 = .anonymous).map Prod.snd

theorem anonymousNames_fillNames (stem : String) (drawn : Nat) (ns : List Naming) :
    anonymousNames ns (fillNames stem drawn ns) =
      (List.range' (drawn + 1) (ns.count .anonymous)).map fun n =>
        some (placeholderName stem n) := by
  induction ns generalizing drawn with
  | nil => rfl
  | cons naming ns ih =>
    cases naming with
    | noMember | identifier => simpa [anonymousNames] using ih drawn
    | anonymous =>
      simpa [anonymousNames, List.range'_succ] using ih (drawn + 1)

/-! ## What is generated -/

/-- A generated name: what it begins with, and a number that is drawn from a sequence. -/
structure GeneratedName where
  sequence : SequenceId
  stem : String
  number : Nat

/-- The text of a generated name. -/
def GeneratedName.text (g : GeneratedName) : String := placeholderName g.stem g.number

/-- The answer shows the names that are generated: one that is drawn is the answer, and those that
a successful build gives to anonymous members are their names, in the same order. -/
structure Event.Shows (e : Event) (names : List GeneratedName) : Prop where
  drawName : ∀ id stem, e.step = .drawName id stem →
    ∃ g, names = [g] ∧ e.answer = .name g.text
  buildNode : ∀ id tree t n, e.step = .buildNode id tree → ParseTree.recognize tree = .ok t →
    e.answer = .node (.ok n) →
      anonymousNames t.namings n.identifiers = names.map fun g => some g.text
  buildForest : ∀ id trees ts ms, e.step = .buildForest id trees →
    trees.mapM ParseTree.recognize = .ok ts → e.answer = .forest (.ok ms) →
      anonymousNames (ts.flatMap ParseTree.namings)
        (ms.flatMap fun m => (Node.module m).identifiers) = names.map fun g => some g.text

namespace Session

variable {s s' : Session} {e : Event} {history : List Event} {names : List (List GeneratedName)}

/-- What the names that a step generates begin with. A builder has a stem of its own, and a number
that is drawn by itself makes no name. -/
def stem? (s : Session) : Step → Option String
  | .drawName _ stem => some stem
  | .buildNode id _ | .buildForest id _ => (s.builders.get? id).map fun b => b.options.stem
  | .buildShared _ => some ({} : BuildOptions).stem
  | _ => none

/-- The names that are generated when something happens, in order. -/
def generated (s : Session) (e : Event) : List GeneratedName :=
  match s.stem? e.step with
  | some stem => e.numbers.map fun n => ⟨e.sequence, stem, n⟩
  | none => []

/-- The history of a session, with the names that are generated in each step. -/
inductive Generates : Session → List Event → List (List GeneratedName) → Session → Prop where
  | nil (s : Session) : Generates s [] [] s
  | cons {s s₁ s' : Session} {e : Event} {history : List Event}
      {names : List (List GeneratedName)} (head : s.Happens e s₁)
      (tail : Generates s₁ history names s') :
    Generates s (e :: history) (s.generated e :: names) s'

theorem Runs.exists_generates (h : s.Runs history s') : ∃ names, s.Generates history names s' := by
  induction h with
  | nil s => exact ⟨[], .nil s⟩
  | cons head _ ih =>
    obtain ⟨names, tail⟩ := ih
    exact ⟨_, .cons head tail⟩

theorem Generates.runs (h : s.Generates history names s') : s.Runs history s' := by
  induction h with
  | nil s => exact .nil s
  | cons head _ ih => exact .cons head ih

/-! ## Where the names are found -/

theorem text_generated {stem : String} (h : s.stem? e.step = some stem) :
    ((s.generated e).map fun g => some g.text) =
      e.numbers.map fun n => some (placeholderName stem n) := by
  simp only [generated, h, List.map_map]
  rfl

theorem anonymousNames_of_draws {α : Type} {o : BuildOptions} {x : BuildM α} {drawn : Nat}
    {ns : List Nat} {r : Except BuildError α} {namings : List Naming} {names : List (Option String)}
    (hdraws : Draws o x drawn ns r) (hnames : names = fillNames o.stem drawn namings)
    (hcount : drawn + ns.length = drawn + namings.count .anonymous) :
    anonymousNames namings names = ns.map fun n => some (placeholderName o.stem n) := by
  rw [hnames, anonymousNames_fillNames, ← Nat.add_left_cancel hcount, ← hdraws.eq_range']

theorem attempt_eq {α β : Type} {input : Except BuildError α} {a : α} {act : α → BuildM β}
    (h : input = .ok a) : attempt input act = act a := by
  rw [h, attempt]

theorem Happens.shows (h : s.Happens e s') : e.Shows (s.generated e) := by
  constructor
  · intro id stem hstep
    cases h with
    | drawName =>
      obtain ⟨rfl, rfl⟩ := Step.drawName.inj hstep
      exact ⟨_, rfl, rfl⟩
    | _ => cases hstep
  · intro _ _ t n hstep ht hanswer
    cases h with
    | @buildNode id b tree ns _ hb hdraws =>
      obtain ⟨rfl, rfl⟩ := Step.buildNode.inj hstep
      obtain rfl := Answer.node.inj hanswer
      have hstem : s.stem? (.buildNode id tree) = some b.options.stem := by
        simp only [stem?, hb, Option.map_some]
      rw [text_generated hstem]
      rw [buildHandedNode, attempt_eq ht] at hdraws
      obtain ⟨hnames, hcount⟩ := identifiers_of_gives hdraws.runFrom_eq
      exact anonymousNames_of_draws hdraws hnames hcount
    | _ => cases hstep
  · intro _ _ ts ms hstep hts hanswer
    cases h with
    | @buildForest id b trees ns _ hb hdraws =>
      obtain ⟨rfl, rfl⟩ := Step.buildForest.inj hstep
      obtain rfl := Answer.forest.inj hanswer
      have hstem : s.stem? (.buildForest id trees) = some b.options.stem := by
        simp only [stem?, hb, Option.map_some]
      rw [text_generated hstem]
      rw [buildHandedForest, attempt_eq hts] at hdraws
      obtain ⟨hnames, hcount⟩ := identifiers_of_gives_buildForest hdraws.runFrom_eq
      exact anonymousNames_of_draws hdraws hnames hcount
    | _ => cases hstep

theorem Generates.shows (h : s.Generates history names s') :
    List.Forall₂ Event.Shows history names := by
  induction h with
  | nil => exact .nil
  | cons head _ ih => exact .cons head.shows ih

/-! ## The numbers of generated names -/

/-- A step only makes names of numbers that it draws. -/
theorem numbers_generated_sublist (s : Session) (e : Event) (q : SequenceId) :
    (((s.generated e).filter fun g => g.sequence = q).map GeneratedName.number).Sublist
      (numbersFrom q [e]) := by
  unfold generated
  cases s.stem? e.step with
  | none => simp
  | some stem =>
    by_cases hq : e.sequence = q <;> simp [numbersFrom, hq, List.filter_map, Function.comp_def]

theorem Generates.numbers_sublist (h : s.Generates history names s') (q : SequenceId) :
    ((names.flatten.filter fun g => g.sequence = q).map GeneratedName.number).Sublist
      (numbersFrom q history) := by
  induction h with
  | nil => simp
  | @cons s s₁ s' e history names _ _ ih =>
    have hcons : numbersFrom q (e :: history) = numbersFrom q [e] ++ numbersFrom q history := by
      simp only [numbersFrom, List.filter_cons, List.filter_nil]
      split <;> simp
    rw [hcons, List.flatten_cons, List.filter_append, List.map_append]
    exact (numbers_generated_sublist s e q).append ih

/-- Of two names with numbers from one sequence, the later one has the greater number. -/
theorem Generates.pairwise_number (h : s.Generates history names s') :
    names.flatten.Pairwise fun g g' => g.sequence = g'.sequence → g.number < g'.number := by
  refine List.pairwise_iff_forall_sublist.2 fun {g g'} hpair hq => ?_
  have hnumbers : [g.number, g'.number].Sublist (numbersFrom g.sequence history) := by
    have hsub := ((hpair.filter fun x => x.sequence = g.sequence).map GeneratedName.number).trans
      (h.numbers_sublist g.sequence)
    simpa [hq] using hsub
  rw [(h.runs.numbersFrom_eq g.sequence).1] at hnumbers
  have hlt := List.Pairwise.sublist hnumbers List.pairwise_lt_range'
  simpa using hlt

/-- Whatever is done in a session, two names whose numbers are drawn from one sequence are the same
only if their stems differ, and one of the stems is the other one with digits behind it. So names
with one stem are all different. The names are those that the answers show, and those of builds that
fail. -/
theorem generated_names_collide (s s' : Session) (steps : List Step) (answers : List Answer)
    (h : s.run steps = .ok (answers, s')) :
    ∃ history names, s.Generates history names s' ∧ history.map Event.step = steps ∧
      history.map Event.answer = answers ∧ List.Forall₂ Event.Shows history names ∧
      (names.flatten.Pairwise fun g g' => g.sequence = g'.sequence → g.text = g'.text →
        g.stem ≠ g'.stem ∧ (DigitsBehind g.stem g'.stem ∨ DigitsBehind g'.stem g.stem)) ∧
      (∀ q stem, ((names.flatten.filter fun g => g.sequence = q ∧ g.stem = stem).map
        GeneratedName.text).Nodup) := by
  obtain ⟨history, hruns, hsteps, hanswers⟩ := run_eq_ok_iff.1 h
  obtain ⟨names, hnames⟩ := hruns.exists_generates
  have hcollide : names.flatten.Pairwise fun g g' => g.sequence = g'.sequence →
      g.text = g'.text →
        g.stem ≠ g'.stem ∧ (DigitsBehind g.stem g'.stem ∨ DigitsBehind g'.stem g.stem) :=
    hnames.pairwise_number.imp fun hlt hq htext =>
      stems_of_placeholderName_eq (Nat.ne_of_lt (hlt hq)) htext
  refine ⟨history, names, hnames, hsteps, hanswers, hnames.shows, hcollide, fun q stem => ?_⟩
  rw [List.Nodup, List.pairwise_map, List.pairwise_filter]
  refine hcollide.imp fun {g g'} himp hg hg' htext => ?_
  obtain ⟨hq, hstem⟩ := of_decide_eq_true hg
  obtain ⟨hq', hstem'⟩ := of_decide_eq_true hg'
  exact (himp (hq.trans hq'.symm) htext).1 (hstem.trans hstem'.symm)

/-- The numbers 1 and 11 make one name of the stems `a1` and `a`. -/
theorem generated_names_collide_split_digits :
    let steps : List Step := [.newCounter "c", .drawName "c" "a1", .draw "c", .draw "c", .draw "c",
      .draw "c", .draw "c", .draw "c", .draw "c", .draw "c", .draw "c", .drawName "c" "a"]
    ∃ history names s', start.Generates history names s' ∧ history.map Event.step = steps ∧
      (history.map Event.answer)[1]? = some (.name "a11") ∧
      (history.map Event.answer)[11]? = some (.name "a11") ∧
      List.Forall₂ Event.Shows history names := by
  intro steps
  obtain ⟨history, names, hnames, hsteps, hanswers, hshows, -⟩ :=
    generated_names_collide start _ steps _ rfl
  refine ⟨history, names, _, hnames, hsteps, ?_, ?_, hshows⟩
  · rw [hanswers]
    rfl
  · rw [hanswers]
    rfl

end Session

end AsnModel
