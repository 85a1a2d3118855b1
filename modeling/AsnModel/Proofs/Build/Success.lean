import AsnModel.Build.Rule
import Mathlib.Data.List.Forall2

/-!
# Successful builds

What it means that a build or a step of reading succeeds, and what each step then has found and
left over. The index of an element only matters to the report of a defect, and therefore does not
show in what a successful reading returns.

## Main definitions

* `BuildM.Gives` — a build succeeds with a given result.
* `Reading.Gives` — a step of reading does.
* `Threads` — a list is built item by item, each one from where the one before it stopped.
* `ParseTree.BuildsAs`, `Element.BuildsValue` — a tree is built for a slot, an element as a value.
* `ParseTree.Reads` — the elements of a tree are read as a given step says.
-/

namespace AsnModel

variable {α β : Type} {o : BuildOptions} {s s' : Nat}

/-! ## Computations that may fail -/

theorem bind_eq_ok_iff {ε α β : Type} {x : Except ε α} {f : α → Except ε β} {b : β} :
    x >>= f = .ok b ↔ ∃ a, x = .ok a ∧ f a = .ok b := by
  cases x <;> simp [bind, Except.bind]

theorem mapError_eq_ok_iff {ε ε' α : Type} {x : Except ε α} {f : ε → ε'} {a : α} :
    x.mapError f = .ok a ↔ x = .ok a := by
  cases x <;> simp [Except.mapError]

/-! ## Building -/

namespace BuildM

/-- `x` succeeds with `a`, and `s'` numbers have been drawn by then if there were `s` before. -/
def Gives (x : BuildM α) (o : BuildOptions) (s : Nat) (a : α) (s' : Nat) : Prop :=
  x.runFrom o s = (.ok a, s')

theorem runFrom_bind (x : BuildM α) (f : α → BuildM β) (o : BuildOptions) (s : Nat) :
    (x >>= f).runFrom o s =
      match x.runFrom o s with
      | (.ok a, s') => (f a).runFrom o s'
      | (.error e, s') => (.error e, s') := by
  change (ExceptT.bindCont (fun a => f a o) (x.runFrom o s).1).run (x.runFrom o s).2 = _
  rcases x.runFrom o s with ⟨_ | a, s₁⟩ <;> rfl

@[simp] theorem gives_pure {a b : α} : (pure a : BuildM α).Gives o s b s' ↔ b = a ∧ s' = s := by
  change (Except.ok a, s) = (Except.ok b, s') ↔ _
  simp [eq_comm]

@[simp] theorem gives_bind {x : BuildM α} {f : α → BuildM β} {b : β} :
    (x >>= f).Gives o s b s' ↔ ∃ a s₁, x.Gives o s a s₁ ∧ (f a).Gives o s₁ b s' := by
  unfold Gives
  rw [runFrom_bind]
  rcases x.runFrom o s with ⟨_ | a, s₁⟩ <;> simp

@[simp] theorem gives_map {x : BuildM α} {f : α → β} {b : β} :
    (f <$> x).Gives o s b s' ↔ ∃ a, x.Gives o s a s' ∧ b = f a := by
  rw [map_eq_pure_bind, gives_bind]
  simp

@[simp] theorem not_gives_throw {e : BuildError} {a : α} :
    ¬(throw e : BuildM α).Gives o s a s' := by
  change ¬(Except.error e, s) = (Except.ok a, s')
  simp

@[simp] theorem gives_read {a : BuildOptions} :
    (read : BuildM BuildOptions).Gives o s a s' ↔ a = o ∧ s' = s := by
  change (Except.ok o, s) = (Except.ok a, s') ↔ _
  simp [eq_comm]

@[simp] theorem gives_placeholder {name : String} :
    placeholder.Gives o s name s' ↔ name = placeholderName o.stem (s + 1) ∧ s' = s + 1 := by
  change (Except.ok (placeholderName o.stem (s + 1)), s + 1) = (Except.ok name, s') ↔ _
  simp [eq_comm]

end BuildM

/-! ## Lists -/

/-- `P` relates the items of a list to their results in turn. What `P` counts passes from each item
to the next one. -/
inductive Threads {τ : Type} (P : τ → Nat → α → Nat → Prop) :
    List τ → Nat → List α → Nat → Prop where
  | nil (s : Nat) : Threads P [] s [] s
  | cons {t : τ} {ts : List τ} {a : α} {as : List α} {s s₁ s' : Nat}
      (head : P t s a s₁) (tail : Threads P ts s₁ as s') : Threads P (t :: ts) s (a :: as) s'

namespace Threads

variable {τ : Type} {P : τ → Nat → α → Nat → Prop} {t : τ} {ts : List τ} {as : List α}

@[simp] theorem nil_iff : Threads P [] s as s' ↔ as = [] ∧ s' = s := by
  constructor
  · rintro ⟨⟩
    exact ⟨rfl, rfl⟩
  · rintro ⟨rfl, rfl⟩
    exact .nil _

@[simp] theorem cons_iff : Threads P (t :: ts) s as s' ↔
    ∃ a s₁ as', P t s a s₁ ∧ Threads P ts s₁ as' s' ∧ as = a :: as' := by
  constructor
  · rintro (_ | ⟨head, tail⟩)
    exact ⟨_, _, _, head, tail, rfl⟩
  · rintro ⟨a, s₁, as', head, tail, rfl⟩
    exact .cons head tail

/-- Where nothing is drawn, each item has its result by itself. -/
theorem iff_forall₂ {R : τ → α → Prop} :
    Threads (fun t s a s' => R t a ∧ s' = s) ts s as s' ↔ List.Forall₂ R ts as ∧ s' = s := by
  induction ts generalizing s as with
  | nil => simp
  | cons t ts ih => simp [ih, List.forall₂_cons_left_iff]; grind

/-- A list whose items have results, wherever they start, has a result. -/
theorem exists_of_forall (h : ∀ t ∈ ts, ∀ s, ∃ a s', P t s a s') (s : Nat) :
    ∃ as s', Threads P ts s as s' := by
  induction ts generalizing s with
  | nil => exact ⟨[], s, .nil s⟩
  | cons t ts ih =>
    obtain ⟨a, s₁, head⟩ := h t (by simp) s
    obtain ⟨as, s', tail⟩ := ih (fun u hu => h u (by simp [hu])) s₁
    exact ⟨a :: as, s', .cons head tail⟩

/-- A list whose items are made from the results, with nothing drawn, has these results. -/
theorem map_self {f : α → τ} (h : ∀ a ∈ as, P (f a) s a s) : Threads P (as.map f) s as s := by
  induction as with
  | nil => exact .nil s
  | cons a as ih => exact .cons (h a (by simp)) (ih fun b hb => h b (by simp [hb]))

theorem append {ts' : List τ} {as' : List α} {s₁ : Nat} (h : Threads P ts s as s₁)
    (h' : Threads P ts' s₁ as' s') : Threads P (ts ++ ts') s (as ++ as') s' := by
  induction h with
  | nil => exact h'
  | cons head _ ih => exact .cons head (ih h')

/-- Results are replaced one by one. -/
theorem map {Q : τ → Nat → β → Nat → Prop} {f : α → β} (h : Threads P ts s as s')
    (hf : ∀ t s a s', P t s a s' → Q t s (f a) s') : Threads Q ts s (as.map f) s' := by
  induction h with
  | nil => exact .nil _
  | cons head _ ih => exact .cons (hf _ _ _ _ head) ih

/-- Items and results that each stand for a list are joined. -/
theorem flatMap {σ : Type} {Q : σ → Nat → β → Nat → Prop} {f : τ → List σ} {g : α → List β}
    (h : Threads P ts s as s')
    (hfg : ∀ t ∈ ts, ∀ s a s', P t s a s' → Threads Q (f t) s (g a) s') :
    Threads Q (ts.flatMap f) s (as.flatMap g) s' := by
  induction h with
  | nil => exact .nil _
  | cons head _ ih =>
    rw [List.flatMap_cons, List.flatMap_cons]
    exact (hfg _ (by simp) _ _ _ head).append (ih fun u hu => hfg u (by simp [hu]))

/-- What is read off each item is what is read off its result. -/
theorem flatMap_eq {f : τ → List β} {g : α → List β} (h : Threads P ts s as s')
    (hfg : ∀ t ∈ ts, ∀ s a s', P t s a s' → f t = g a) : ts.flatMap f = as.flatMap g := by
  induction h with
  | nil => rfl
  | cons head _ ih =>
    rw [List.flatMap_cons, List.flatMap_cons, hfg _ (by simp) _ _ _ head,
      ih fun u hu => hfg u (by simp [hu])]

end Threads

/-! ## Trees and elements in their places -/

namespace Element

variable {τ σ : Type}

@[simp] theorem token?_token (text : String) : (token text : Element τ).token? = some text := rfl

@[simp] theorem token?_tree (t : τ) : (tree t).token? = none := rfl

@[simp] theorem token?_list (ts : List τ) : (list ts).token? = none := rfl

@[simp] theorem tree?_tree (t : τ) : (tree t).tree? = some t := rfl

@[simp] theorem tree?_token (text : String) : (token text : Element τ).tree? = none := rfl

@[simp] theorem tree?_list (ts : List τ) : (list ts).tree? = none := rfl

@[simp] theorem map_tree (f : τ → σ) (t : τ) : (tree t).map f = tree (f t) := rfl

@[simp] theorem map_token (f : τ → σ) (text : String) : (token text).map f = token text := rfl

@[simp] theorem map_list (f : τ → σ) (ts : List τ) : (list ts).map f = list (ts.map f) := rfl

theorem map_comp_tree (f : τ → σ) : map f ∘ tree = tree ∘ f := rfl

@[simp] theorem token?_map (f : τ → σ) (e : Element τ) : (e.map f).token? = e.token? := by
  cases e <;> rfl

@[simp] theorem tree?_map (f : τ → σ) (e : Element τ) : (e.map f).tree? = e.tree?.map f := by
  cases e <;> rfl

@[simp] theorem list?_map (f : τ → σ) (e : Element τ) :
    (e.map f).list? = e.list?.map (List.map f) := by
  cases e <;> rfl

@[simp] theorem token?_eq_some_iff {e : Element τ} {text : String} :
    e.token? = some text ↔ e = .token text := by
  cases e <;> simp [token?]

@[simp] theorem tree?_eq_some_iff {e : Element τ} {t : τ} : e.tree? = some t ↔ e = .tree t := by
  cases e <;> simp [tree?]

@[simp] theorem list?_eq_some_iff {e : Element τ} {ts : List τ} :
    e.list? = some ts ↔ e = .list ts := by
  cases e <;> simp [list?]

end Element

namespace ParseTree

@[simp] theorem production_draft (t : ParseTree) : t.draft.production = t.label :=
  Tree.label_annotate_fst construct t

@[simp] theorem elements_draft (t : ParseTree) :
    t.draft.elements = t.elements.map (Element.map draft) :=
  Tree.elements_annotate construct t

/-- The tree is built for the place that `slot` describes, as `a`. -/
def BuildsAs (slot : Slot α) (o : BuildOptions) (t : ParseTree) (s : Nat) (a : α) (s' : Nat) :
    Prop :=
  ∃ n, t.build.Gives o s n s' ∧ slot.accept n = some a

/-- The elements of the tree are read as `r` says, with the result `a`. -/
def Reads (t : ParseTree) (r : Reading α) (o : BuildOptions) (s : Nat) (a : α) (s' : Nat) : Prop :=
  (t.draft.read r).Gives o s a s'

end ParseTree

/-- The element is read as the value `v`. -/
def Element.BuildsValue (o : BuildOptions) : Element ParseTree → Nat → Value → Nat → Prop
  | .token text, s, v, s' => v = .literal text ∧ s' = s
  | .tree t, s, v, s' => t.BuildsAs .value o s v s'
  | .list _, _, _, _ => False

/-- What is left to read of a node of production `p`, from the element at `index` on. -/
def Cursor.onto (p : Production) (index : Nat) (es : List (Element ParseTree)) : Cursor :=
  ⟨p, index, es.map (Element.map ParseTree.draft)⟩

/-! ## Steps of reading -/

namespace Reading

open ParseTree

variable {c c' : Cursor}

/-- The step `r` succeeds with `a` at the cursor `c`, and leaves `c'`. -/
def Gives (r : Reading α) (o : BuildOptions) (c : Cursor) (s : Nat) (a : α) (c' : Cursor)
    (s' : Nat) : Prop :=
  BuildM.Gives (r.run c) o s (a, c') s'

@[simp] theorem gives_pure {a b : α} :
    Gives (pure a) o c s b c' s' ↔ b = a ∧ c' = c ∧ s' = s := by
  simp [Gives, and_assoc]

@[simp] theorem gives_bind {r : Reading α} {f : α → Reading β} {b : β} :
    Gives (r >>= f) o c s b c' s' ↔
      ∃ a c₁ s₁, Gives r o c s a c₁ s₁ ∧ Gives (f a) o c₁ s₁ b c' s' := by
  simp [Gives]

@[simp] theorem gives_map {r : Reading α} {f : α → β} {b : β} :
    Gives (f <$> r) o c s b c' s' ↔ ∃ a, Gives r o c s a c' s' ∧ b = f a := by
  rw [map_eq_pure_bind, gives_bind]
  simp

/-- After a step that succeeds, reading goes on from where it has stopped. -/
theorem Gives.runFrom_bind {r : Reading α} {f : α → Reading β} {a : α} {s₁ : Nat}
    (h : Gives r o c s a c' s₁) :
    BuildM.runFrom ((r >>= f).run c) o s = BuildM.runFrom ((f a).run c') o s₁ := by
  have hrun : BuildM.runFrom (r.run c) o s = (.ok (a, c'), s₁) := h
  rw [StateT.run_bind, BuildM.runFrom_bind, hrun]

theorem runFrom_map_of_error {r : Reading α} {f : α → β} {e : BuildError}
    (h : BuildM.runFrom (r.run c) o s = (.error e, s')) :
    BuildM.runFrom ((f <$> r).run' c) o s = (.error e, s') := by
  rw [StateT.run'_eq, StateT.run_map, map_eq_pure_bind, map_eq_pure_bind, BuildM.runFrom_bind,
    BuildM.runFrom_bind, h]

@[simp] theorem gives_lift {x : BuildM α} {a : α} :
    Gives (monadLift x) o c s a c' s' ↔ x.Gives o s a s' ∧ c' = c := by
  simp [Gives]

@[simp] theorem not_gives_fail {d : Defect} {a : α} : ¬Gives (fail d) o c s a c' s' := by
  simp [Gives, run_fail]

@[simp] theorem not_gives_throw {e : BuildError} {a : α} : ¬Gives (throw e) o c s a c' s' := by
  change ¬BuildM.Gives (throw e >>= fun a => pure (a, c)) o s (a, c') s'
  simp

@[simp] theorem gives_read {a : BuildOptions} :
    Gives read o c s a c' s' ↔ a = o ∧ c' = c ∧ s' = s := by
  change BuildM.Gives (read >>= fun a => pure (a, c)) o s (a, c') s' ↔ _
  simp [and_comm, and_left_comm, and_assoc]

@[simp] theorem gives_ite_fail {r : Reading α} {d : Defect} {a : α} {q : Prop} [Decidable q] :
    Gives (if q then r else fail d) o c s a c' s' ↔ q ∧ Gives r o c s a c' s' := by
  split <;> simp [*]

@[simp] theorem gives_get {a : Cursor} :
    Gives get o c s a c' s' ↔ a = c ∧ c' = c ∧ s' = s := by
  simp [Gives, and_assoc]

section Onto

variable {p : Production} {i : Nat} {es : List (Element ParseTree)}

theorem gives_take {pick : Element Draft → Option α} {defect : Nat → Defect} {a : α} :
    Gives (take pick defect) o (.onto p i es) s a c' s' ↔
      ∃ e rest, es = e :: rest ∧ pick (e.map draft) = some a ∧ c' = .onto p (i + 1) rest ∧
        s' = s := by
  rw [Gives, run_take]
  cases es with
  | nil => simp [Cursor.onto]
  | cons e es => cases h : pick (e.map draft) <;> simp [Cursor.onto, h, eq_comm, and_assoc]

@[simp] theorem gives_token {text : String} :
    Gives token o (.onto p i es) s text c' s' ↔
      ∃ rest, es = .token text :: rest ∧ c' = .onto p (i + 1) rest ∧ s' = s := by
  simp [token, gives_take]

@[simp] theorem gives_list {ds : List Draft} :
    Gives list o (.onto p i es) s ds c' s' ↔
      ∃ ts rest, es = .list ts :: rest ∧ ds = ts.map draft ∧ c' = .onto p (i + 1) rest ∧
        s' = s := by
  simp only [list, gives_take, Element.list?_map, Option.map_eq_some_iff,
    Element.list?_eq_some_iff]
  grind

@[simp] theorem gives_element {e : Element Draft} :
    Gives element o (.onto p i es) s e c' s' ↔
      ∃ e' rest, es = e' :: rest ∧ e = e'.map draft ∧ c' = .onto p (i + 1) rest ∧ s' = s := by
  simp [element, gives_take, eq_comm]

theorem gives_node {expected : List Production} {d : Draft} :
    Gives (node expected) o (.onto p i es) s d c' s' ↔
      ∃ t rest, es = .tree t :: rest ∧ (expected = [] ∨ t.label ∈ expected) ∧ d = t.draft ∧
        c' = .onto p (i + 1) rest ∧ s' = s := by
  have h : Gives (node expected) o (.onto p i es) s d c' s' ↔
      Gives (take Element.tree? (.expectedNode · expected)) o (.onto p i es) s d c' s' ∧
        (expected = [] ∨ d.production ∈ expected) := by
    simp [node]
  rw [h, gives_take]
  constructor
  · rintro ⟨⟨e, rest, rfl, he, rfl, rfl⟩, hd⟩
    obtain ⟨t, rfl, rfl⟩ : ∃ t, e = .tree t ∧ t.draft = d := by simpa using he
    exact ⟨t, rest, rfl, by simpa using hd, rfl, rfl, rfl⟩
  · rintro ⟨t, rest, rfl, ht, rfl, rfl, rfl⟩
    exact ⟨⟨_, _, rfl, by simp, rfl, rfl⟩, by simpa using ht⟩

@[simp] theorem gives_anyNode {d : Draft} :
    Gives (node []) o (.onto p i es) s d c' s' ↔
      ∃ t rest, es = .tree t :: rest ∧ d = t.draft ∧ c' = .onto p (i + 1) rest ∧ s' = s := by
  simp [gives_node]

/-- Where productions are expected, the node is shown with its production and its elements. -/
@[simp] theorem gives_oneOf {q : Production} {qs : List Production} {d : Draft} :
    Gives (node (q :: qs)) o (.onto p i es) s d c' s' ↔
      ∃ l sub rest, es = .tree (.node l sub) :: rest ∧ l ∈ q :: qs ∧ d = draft (.node l sub) ∧
        c' = .onto p (i + 1) rest ∧ s' = s := by
  rw [gives_node]
  constructor
  · rintro ⟨⟨l, sub⟩, rest, rfl, h, hrest⟩
    exact ⟨l, sub, rest, rfl, by simpa using h, hrest⟩
  · rintro ⟨l, sub, rest, rfl, h, hrest⟩
    exact ⟨.node l sub, rest, rfl, .inr h, hrest⟩

@[simp] theorem gives_finish {u : Unit} :
    Gives finish o (.onto p i es) s u c' s' ↔ es = [] ∧ c' = .onto p i es ∧ s' = s := by
  cases es <;> simp [finish, Cursor.onto]

@[simp] theorem gives_fit {slot : Slot α} {t : ParseTree} {a : α} :
    Gives (fit slot t.draft) o c s a c' s' ↔ t.BuildsAs slot o s a s' ∧ c' = c := by
  simp only [fit, gives_bind, gives_lift, BuildsAs, build]
  constructor
  · rintro ⟨n, c₁, s₁, ⟨hn, rfl⟩, h⟩
    cases hslot : slot.accept n <;> simp [hslot] at h
    obtain ⟨rfl, rfl, rfl⟩ := h
    exact ⟨⟨n, hn, hslot⟩, rfl⟩
  · rintro ⟨⟨n, hn, hslot⟩, rfl⟩
    exact ⟨n, c', s', ⟨hn, rfl⟩, by simp [hslot]⟩

@[simp] theorem gives_next {slot : Slot α} {a : α} :
    Gives (next slot) o (.onto p i es) s a c' s' ↔
      ∃ t rest, es = .tree t :: rest ∧ t.BuildsAs slot o s a s' ∧ c' = .onto p (i + 1) rest := by
  simp [next]

@[simp] theorem gives_value {v : Value} :
    Gives value o (.onto p i es) s v c' s' ↔
      ∃ e rest, es = e :: rest ∧ e.BuildsValue o s v s' ∧ c' = .onto p (i + 1) rest := by
  cases es with
  | nil => simp [value]
  | cons e es =>
    cases e <;>
      simp [value, Element.map, Element.BuildsValue, and_comm, and_left_comm, and_assoc]

/-- A step that is only taken if the next element satisfies `q`. -/
theorem gives_ifNext {q : Element Draft → Bool} {r : Reading α} {a : Option α} :
    Gives (ifNext q r) o (.onto p i es) s a c' s' ↔
      (∃ b, (∃ e ∈ es.head?, q (e.map draft)) ∧ Gives r o (.onto p i es) s b c' s' ∧ a = some b) ∨
        (∀ e ∈ es.head?, ¬q (e.map draft)) ∧ a = none ∧ c' = .onto p i es ∧ s' = s := by
  rw [Gives, run_ifNext]
  cases es with
  | nil => simp [Cursor.onto, and_assoc]
  | cons e es => by_cases h : q (e.map draft) = true <;> simp [Cursor.onto, Gives, h, and_assoc]

/-- A step that takes one element, repeated for all that are left. -/
theorem gives_forEachLeft {r : Reading α} {P : Element ParseTree → Nat → α → Nat → Prop}
    (hr : ∀ i es s a c' s', Gives r o (.onto p i es) s a c' s' ↔
      ∃ e rest, es = e :: rest ∧ P e s a s' ∧ c' = .onto p (i + 1) rest) {as : List α} :
    Gives (forEachLeft r) o (.onto p i es) s as c' s' ↔
      Threads P es s as s' ∧ c' = .onto p (i + es.length) [] := by
  -- How often the step is taken is settled before the first time, by the elements that are left.
  have h : ∀ ds : List (Element Draft), ds.length = es.length →
      (Gives (ds.mapM fun _ => r) o (.onto p i es) s as c' s' ↔
        Threads P es s as s' ∧ c' = .onto p (i + es.length) []) := by
    intro ds hds
    induction ds generalizing i es s as with
    | nil =>
      obtain rfl : es = [] := by simpa [eq_comm] using hds
      simp [and_comm, and_left_comm, and_assoc]
    | cons d ds ih =>
      obtain ⟨e, es, rfl⟩ : ∃ e rest, es = e :: rest := by cases es <;> simp_all
      have hlength : i + 1 + es.length = i + (es.length + 1) := by omega
      have hstep : Gives ((d :: ds).mapM fun _ => r) o (.onto p i (e :: es)) s as c' s' ↔
          ∃ a s₁, P e s a s₁ ∧ ∃ as',
            Gives (ds.mapM fun _ => r) o (.onto p (i + 1) es) s₁ as' c' s' ∧ as = a :: as' := by
        simp [hr]
      simp only [hstep, ih (Nat.succ.inj hds), Threads.cons_iff, List.length_cons, hlength]
      grind
  rw [Gives, run_forEachLeft]
  exact h _ (by simp [Cursor.onto])

/-- Trees that are built one after the other are all that is left. -/
theorem threads_tree_iff {P : ParseTree → Nat → α → Nat → Prop} {as : List α} :
    Threads (fun e s a s' => ∃ t, e = .tree t ∧ P t s a s') es s as s' ↔
      ∃ ts, es = ts.map .tree ∧ Threads P ts s as s' := by
  induction es generalizing s as with
  | nil => simp
  | cons e es ih =>
    simp only [Threads.cons_iff, ih]
    constructor
    · rintro ⟨a, s₁, as', ⟨t, rfl, ht⟩, ⟨ts, rfl, hts⟩, rfl⟩
      exact ⟨t :: ts, rfl, .cons ht hts⟩
    · rintro ⟨_ | ⟨t, ts⟩, hes, hts⟩
      · simp at hes
      · obtain ⟨rfl, rfl⟩ := List.cons.inj hes
        obtain ⟨a, s₁, as', ht, htail, rfl⟩ := Threads.cons_iff.1 hts
        exact ⟨a, s₁, as', ⟨t, rfl, ht⟩, ⟨ts, rfl, htail⟩, rfl⟩

@[simp] theorem gives_forEachLeft_next {slot : Slot α} {as : List α} :
    Gives (forEachLeft (next slot)) o (.onto p i es) s as c' s' ↔
      (∃ ts, es = ts.map .tree ∧ Threads (BuildsAs slot o) ts s as s') ∧
        c' = .onto p (i + es.length) [] := by
  rw [← threads_tree_iff]
  exact gives_forEachLeft fun i es s a c' s' => by
    simp only [gives_next]
    grind

@[simp] theorem gives_mapM_fit {slot : Slot α} {ts : List ParseTree} {as : List α} :
    Gives (ts.mapM (fit slot ∘ draft)) o c s as c' s' ↔
      Threads (BuildsAs slot o) ts s as s' ∧ c' = c := by
  induction ts generalizing s as with
  | nil => simp [and_comm, and_left_comm, and_assoc]
  | cons t ts ih =>
    simp only [List.mapM_cons, Function.comp_apply, gives_bind, gives_fit, gives_pure,
      Threads.cons_iff]
    grind

end Onto

end Reading

theorem ParseTree.reads_iff {t : ParseTree} {r : Reading α} {a : α} :
    t.Reads r o s a s' ↔ ∃ c', Reading.Gives r o (.onto t.label 0 t.elements) s a c' s' := by
  simp [Reads, Draft.read, Reading.of, Reading.Gives, Cursor.onto]

end AsnModel
