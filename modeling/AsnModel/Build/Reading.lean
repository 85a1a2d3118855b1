import AsnModel.Build.Basic
import AsnModel.Build.Slot
import AsnModel.Tree.Basic

/-!
# Reading the elements of a node

The elements of a parse node are read one after the other. Each step takes the next element, if it
has the form that is expected, or reports the defect at its index.

## Main definitions

* `Draft` — a parse tree in which every node carries the construction of its model node.
* `Cursor`, `Reading` — the elements of a node that are still to be read, and the steps of reading.
* `Reading.token`, `Reading.list`, `Reading.node`, `Reading.element` — take an element.
* `Reading.finish` — require that all elements have been read.
* `Reading.fit`, `Reading.next`, `Reading.value` — build a node for its place in the model.

A lemma `run_…` after each step says what the step makes of a cursor.
-/

namespace AsnModel

/-- A parse tree in which every node carries the construction of its model node. Reading a node
therefore never descends by itself: it runs the constructions that it finds. -/
abbrev Draft := Tree (Production × BuildM Node)

namespace Draft

/-- The production of the root. -/
def production (d : Draft) : Production := d.label.1

/-- Build the model node of the root. -/
def build (d : Draft) : BuildM Node := d.label.2

/-- What stands inside all generic type wrappers. A wrapper whose first element is not a node is
not opened. -/
def unwrapped : Draft → Draft
  | .node (.type, _) (.tree d :: _) => unwrapped d
  | d => d

end Draft

/-- The production of an element that is a node. -/
def Element.production? (e : Element Draft) : Option Production := e.tree?.map Draft.production

/-- How far the elements of a node have been read. -/
structure Cursor where
  /-- The production of the node being read. -/
  production : Production
  /-- The index of the next element. -/
  index : Nat
  /-- The elements that are left. -/
  rest : List (Element Draft)

/-- A step in reading the elements of one node. -/
abbrev Reading := StateT Cursor BuildM

/-- Read the elements of a node from the first one on. -/
def Reading.of {α : Type} (r : Reading α) (production : Production)
    (elements : List (Element Draft)) : BuildM α :=
  r.run' ⟨production, 0, elements⟩

/-- Read the elements of a node below. -/
def Draft.read {α : Type} (d : Draft) (r : Reading α) : BuildM α := r.of d.production d.elements

namespace Reading

variable {α : Type}

/-! ## Single elements -/

/-- Report a defect of the node being read. -/
def fail (defect : Defect) : Reading α := do
  throw (.malformed (← get).production defect)

theorem run_fail (d : Defect) (c : Cursor) :
    (fail d : Reading α).run c = throw (.malformed c.production d) := rfl

/-- Take the next element as what `pick` makes of it. If there is none, or `pick` refuses it, it
has the given defect. -/
def take (pick : Element Draft → Option α) (defect : Nat → Defect) : Reading α := do
  let c ← get
  match c.rest.head?.bind pick with
  | some a =>
    set { c with index := c.index + 1, rest := c.rest.tail }
    return a
  | none => fail (defect c.index)

theorem run_take (pick : Element Draft → Option α) (defect : Nat → Defect) (c : Cursor) :
    (take pick defect).run c =
      match c.rest.head?.bind pick with
      | some a => pure (a, { c with index := c.index + 1, rest := c.rest.tail })
      | none => throw (.malformed c.production (defect c.index)) := by
  simp only [take, StateT.run_bind, StateT.run_get, pure_bind]
  cases c.rest.head?.bind pick <;> simp [run_fail]

/-- Take a token. -/
def token : Reading String := take Element.token? .expectedToken

/-- Take a list of nodes. -/
def list : Reading (List Draft) := take Element.list? .expectedList

/-- Take any element. -/
def element : Reading (Element Draft) := take some (.expectedNode · [])

/-- Take a node of one of the given productions, or any node if none is given. -/
def node (expected : List Production) : Reading Draft := do
  let index := (← get).index
  let d ← take Element.tree? (.expectedNode · expected)
  if expected = [] ∨ d.production ∈ expected then return d
  else fail (.wrongNode index expected d.production)

theorem run_node (expected : List Production) (c : Cursor) :
    (node expected).run c =
      match c.rest.head?.bind Element.tree? with
      | some d =>
        if expected = [] ∨ d.production ∈ expected then
          pure (d, { c with index := c.index + 1, rest := c.rest.tail })
        else throw (.malformed c.production (.wrongNode c.index expected d.production))
      | none => throw (.malformed c.production (.expectedNode c.index expected)) := by
  simp only [node, StateT.run_bind, StateT.run_get, pure_bind, run_take]
  cases c.rest.head?.bind Element.tree? with
  | none => rfl
  | some d =>
    simp only [pure_bind]
    split <;> simp [run_fail]

/-- Pass over a number of elements whose content does not matter. -/
def skip : Nat → Reading Unit
  | 0 => return
  | count + 1 => do
    let _ ← element
    skip count

/-- Require that no element is left. -/
def finish : Reading Unit := do
  let c ← get
  if c.rest ≠ [] then fail (.trailingElement c.index)

theorem run_finish (c : Cursor) :
    finish.run c =
      if c.rest = [] then pure ((), c)
      else throw (.malformed c.production (.trailingElement c.index)) := by
  simp only [finish, StateT.run_bind, StateT.run_get, pure_bind]
  split <;> simp_all [run_fail]

/-! ## Optional and repeated elements -/

/-- Go on with `r` only if there is a next element, and it satisfies `p`. -/
def ifNext (p : Element Draft → Bool) (r : Reading α) : Reading (Option α) := do
  if (← get).rest.head?.any p then return some (← r) else return none

theorem run_ifNext (p : Element Draft → Bool) (r : Reading α) (c : Cursor) :
    (ifNext p r).run c =
      if c.rest.head?.any p then r.run c >>= fun (a, c) => pure (some a, c)
      else pure (none, c) := by
  simp only [ifNext, StateT.run_bind, StateT.run_get, pure_bind]
  split <;> simp

/-- Go on with `r` once for each element that is left. -/
def forEachLeft (r : Reading α) : Reading (List α) := do
  (← get).rest.mapM fun _ => r

theorem run_forEachLeft (r : Reading α) (c : Cursor) :
    (forEachLeft r).run c = (c.rest.mapM fun _ => r).run c := by
  simp [forEachLeft]

/-! ## Nodes in their places -/

/-- Build a node for its place in the model. If it does not fit there, the node being read is to
blame, and the report names what stands inside the generic type wrappers. -/
def fit (slot : Slot α) (d : Draft) : Reading α := do
  match slot.accept (← d.build) with
  | some a => return a
  | none => fail (.wrongCategory slot.description d.unwrapped.production)

theorem run_fit (slot : Slot α) (d : Draft) (c : Cursor) :
    (fit slot d).run c = d.build >>= fun n =>
      match slot.accept n with
      | some a => pure (a, c)
      | none =>
        throw (.malformed c.production
          (.wrongCategory slot.description d.unwrapped.production)) := by
  simp only [fit, StateT.run_bind, StateT.run_monadLift, bind_assoc, pure_bind]
  congr 1; funext n
  cases slot.accept n <;> simp [run_fail]

/-- Take a node and build it for its place in the model. -/
def next (slot : Slot α) : Reading α := do
  fit slot (← node [])

/-- Take a value: a token is a raw literal, and a node is built. -/
def value : Reading Value := do
  let index := (← get).index
  match ← element with
  | .token text => return .literal text
  | .tree d => fit .value d
  | .list _ => fail (.expectedNode index [])

end Reading

end AsnModel
