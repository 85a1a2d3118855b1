import AsnModel.Dependency.Graph

/-!
# Strongly connected components of definitions

Definitions are grouped so that two are in one group exactly if each refers to the other, directly
or through others, and a group only refers to itself and to groups before it. The groups are found
by one depth-first search over the positions of the definitions, with a stack of the positions
whose component is still open and, for each of them, the lowest index on the stack that is known to
be reachable from it.

## Main definitions

* `Search` — the state of the search.
* `Search.connect` — visit a position, and everything that can be reached from it.
* `strongComponents` — the components of a graph on positions.
* `referencePositions` — the graph that a list of definitions stands for.
* `dependencySort` — the definitions in groups.
-/

namespace AsnModel

universe u

/-- A state in the search for components. -/
structure Search where
  /-- The number of positions that have been found. -/
  found : Nat
  /-- The index of each position that has been found, counted in the order of finding them. -/
  index : Nat → Option Nat
  /-- The lowest index on the stack that a position is known to reach. -/
  low : Nat → Nat
  /-- Whether a position is on the stack. -/
  onStack : Nat → Bool
  /-- The positions whose component is open; the one found last comes first. -/
  stack : List Nat
  /-- The finished components, in the order in which they were finished. -/
  components : List (List Nat)

namespace Search

/-- Before any position is found. -/
def start : Search where
  found := 0
  index _ := none
  low _ := 0
  onStack _ := false
  stack := []
  components := []

/-- Give `v` the next index and put it on the stack. -/
def discover (s : Search) (v : Nat) : Search :=
  { s with
    found := s.found + 1
    index := fun w => if w = v then some s.found else s.index w
    low := fun w => if w = v then s.found else s.low w
    onStack := fun w => if w = v then true else s.onStack w
    stack := v :: s.stack }

/-- Note that `v` reaches index `i`. -/
def lower (s : Search) (v i : Nat) : Search :=
  { s with low := fun w => if w = v then min (s.low v) i else s.low w }

/-- Split a stack below `v`: what is popped until `v` has been popped, and what stays. -/
def popThrough (v : Nat) : List Nat → List Nat × List Nat
  | [] => ([], [])
  | w :: ws =>
    if w = v then ([w], ws)
    else
      let (popped, rest) := popThrough v ws
      (w :: popped, rest)

/-- Finish the component that was entered at `v`. -/
def close (s : Search) (v : Nat) : Search :=
  let (popped, rest) := popThrough v s.stack
  { s with
    onStack := fun w => if w ∈ popped then false else s.onStack w
    stack := rest
    components := s.components ++ [popped] }

/-- Follow an edge from `v` to `w`. A position that has not been found is visited. One that is on
the stack can be reached from `v`, and one that is not belongs to a finished component. -/
def follow (visit : Nat → Search → Search) (v : Nat) (s : Search) (w : Nat) : Search :=
  match s.index w with
  | none =>
    let s := visit w s
    s.lower v (s.low w)
  | some i => if s.onStack w then s.lower v i else s

/-- Leave `v`. If it reaches nothing below itself on the stack, its component is complete. -/
def leave (s : Search) (v : Nat) : Search :=
  if s.index v = some (s.low v) then s.close v else s

/-- Visit `v`: discover it, follow its edges in order, and leave it. Each nested visit discovers a
position, so the number of positions that have not been found is enough as fuel. -/
def connect (edges : Nat → List Nat) : Nat → Nat → Search → Search
  | 0, _, s => s
  | fuel + 1, v, s => ((edges v).foldl (follow (connect edges fuel) v) (s.discover v)).leave v

/-- Visit each position below `count` that has not been found by then. -/
def connectAll (count : Nat) (edges : Nat → List Nat) : Search :=
  (List.range count).foldl
    (fun s v => if s.index v = none then connect edges count v s else s) start

end Search

/-- The components of the graph on the positions below `count` with the given edges. -/
def strongComponents (count : Nat) (edges : Nat → List Nat) : List (List Nat) :=
  (Search.connectAll count edges).components

section Definitions

variable {α : Type u} [Dependent α]

/-- The position of the last definition of a name. -/
def lastPosition? (items : List α) (name : String) : Option Nat :=
  (items.zipIdx.filter fun (item, _) => Dependent.name item = name).getLast?.map (·.2)

/-- For each definition, the positions of what it refers to, in the order of its references. A name
stands for its last definition, and an undefined name for nothing. -/
def referencePositions (items : List α) : List (List Nat) :=
  items.map fun item => (Dependent.references item).filterMap (lastPosition? items)

/-- The strongly connected components of definitions, as positions in the list. -/
def componentPositions (items : List α) : List (List Nat) :=
  let edges := (referencePositions items).toArray
  strongComponents items.length fun v => edges[v]?.getD []

/-- Group definitions into strongly connected components, so that a component refers only to itself
and to components before it. -/
def dependencySort (items : List α) : List (List α) :=
  (componentPositions items).map fun component => component.filterMap (items[·]?)

end Definitions

end AsnModel
