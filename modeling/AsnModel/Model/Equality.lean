import AsnModel.Model.TypeDecl

/-!
# Decidable equality of type declarations

Two declarations are equal when all their parts are, recursively.
-/

namespace AsnModel.TypeDecl

mutual

/-- Compare two type declarations. -/
def same : TypeDecl → TypeDecl → Bool
  | .constructed k n ms, .constructed k' n' ms' => k = k' && n = n' && sameMembers ms ms'
  | .collection k s t, .collection k' s' t' => k = k' && s = s' && same t t'
  | .tagged g i t, .tagged g' i' t' => g = g' && i = i' && same t t'
  | .simple n r, .simple n' r' => n = n' && r = r'
  | .reference n, .reference n' => n = n'
  | .valueList n is, .valueList n' is' => n = n' && is = is'
  | .bitString n is, .bitString n' is' => n = n' && is = is'
  | _, _ => false

/-- Compare two lists of members. -/
def sameMembers : List (Member TypeDecl) → List (Member TypeDecl) → Bool
  | [], [] => true
  | a :: as, b :: bs => sameMember a b && sameMembers as bs
  | _, _ => false

/-- Compare two members. -/
def sameMember : Member TypeDecl → Member TypeDecl → Bool
  | .component c, .component c' => sameComponent c c'
  | .alternative n t, .alternative n' t' => n = n' && same t t'
  | .extension, .extension => true
  | _, _ => false

/-- Compare two components. -/
def sameComponent : Component TypeDecl → Component TypeDecl → Bool
  | .named n t p, .named n' t' p' => n = n' && same t t' && p = p'
  | .componentsOf t, .componentsOf t' => same t t'
  | _, _ => false

end

mutual

theorem same_iff : ∀ a b : TypeDecl, same a b = true ↔ a = b
  | .constructed _ _ ms, b => by cases b <;> simp [same, sameMembers_iff ms, and_assoc]
  | .collection _ _ t, b => by cases b <;> simp [same, same_iff t, and_assoc]
  | .tagged _ _ t, b => by cases b <;> simp [same, same_iff t, and_assoc]
  | .simple _ _, b => by cases b <;> simp [same]
  | .reference _, b => by cases b <;> simp [same]
  | .valueList _ _, b => by cases b <;> simp [same]
  | .bitString _ _, b => by cases b <;> simp [same]

theorem sameMembers_iff : ∀ as bs : List (Member TypeDecl), sameMembers as bs = true ↔ as = bs
  | [], bs => by cases bs <;> simp [sameMembers]
  | a :: as, bs => by cases bs <;> simp [sameMembers, sameMember_iff a, sameMembers_iff as]

theorem sameMember_iff : ∀ a b : Member TypeDecl, sameMember a b = true ↔ a = b
  | .component c, b => by cases b <;> simp [sameMember, sameComponent_iff c]
  | .alternative _ t, b => by cases b <;> simp [sameMember, same_iff t]
  | .extension, b => by cases b <;> simp [sameMember]

theorem sameComponent_iff : ∀ a b : Component TypeDecl, sameComponent a b = true ↔ a = b
  | .named _ t _, b => by cases b <;> simp [sameComponent, same_iff t, and_assoc]
  | .componentsOf t, b => by cases b <;> simp [sameComponent, same_iff t]

end

instance : DecidableEq TypeDecl := fun a b => decidable_of_iff _ (same_iff a b)

end AsnModel.TypeDecl
