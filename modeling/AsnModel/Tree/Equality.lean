import AsnModel.Tree.Basic

/-!
# Decidable equality of trees

Two trees are equal when their labels and elements are, recursively.
-/

namespace AsnModel.Tree

universe u

variable {κ : Type u} [DecidableEq κ]

mutual

/-- Compare two trees. -/
def same : Tree κ → Tree κ → Bool
  | .node l es, .node l' es' => l = l' && sameElements es es'

/-- Compare two lists of elements. -/
def sameElements : List (Element (Tree κ)) → List (Element (Tree κ)) → Bool
  | [], [] => true
  | a :: as, b :: bs => sameElement a b && sameElements as bs
  | _, _ => false

/-- Compare two elements. -/
def sameElement : Element (Tree κ) → Element (Tree κ) → Bool
  | .tree a, .tree b => same a b
  | .token a, .token b => a = b
  | .list as, .list bs => sameTrees as bs
  | _, _ => false

/-- Compare two lists of trees. -/
def sameTrees : List (Tree κ) → List (Tree κ) → Bool
  | [], [] => true
  | a :: as, b :: bs => same a b && sameTrees as bs
  | _, _ => false

end

mutual

theorem same_iff : ∀ a b : Tree κ, same a b = true ↔ a = b
  | .node _ es, .node _ es' => by simp [same, sameElements_iff es es']

theorem sameElements_iff : ∀ as bs : List (Element (Tree κ)), sameElements as bs = true ↔ as = bs
  | [], bs => by cases bs <;> simp [sameElements]
  | a :: as, bs => by cases bs <;> simp [sameElements, sameElement_iff a, sameElements_iff as]

theorem sameElement_iff : ∀ a b : Element (Tree κ), sameElement a b = true ↔ a = b
  | .tree t, b => by cases b <;> simp [sameElement, same_iff t]
  | .token _, b => by cases b <;> simp [sameElement]
  | .list ts, b => by cases b <;> simp [sameElement, sameTrees_iff ts]

theorem sameTrees_iff : ∀ as bs : List (Tree κ), sameTrees as bs = true ↔ as = bs
  | [], bs => by cases bs <;> simp [sameTrees]
  | a :: as, bs => by cases bs <;> simp [sameTrees, same_iff a, sameTrees_iff as]

end

instance : DecidableEq (Tree κ) := fun a b => decidable_of_iff _ (same_iff a b)

end AsnModel.Tree
