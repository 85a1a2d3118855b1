import AsnModel.Build.Error
import AsnModel.Model.TypeDecl
import AsnModel.Text.Numeral

/-!
# Numbering of enumerations

A named value without a number takes the number after the named value before it, or zero if there
is none. Extension markers do not count, and numbers that are written are kept as they are.

## Main definitions

* `successor` — the numeral after a given one.
* `numberItems` — number a list of named values.
-/

namespace AsnModel

/-- The numeral after `previous`, which the named value `identifier` takes. Both have to fit into
64 bits. -/
def successor (identifier previous : String) : Except Defect String :=
  match Text.int64? previous with
  | none => .error (.nonIntegerValue identifier previous)
  | some n =>
    if n < Text.maxInt64 then .ok (toString (n + 1))
    else .error (.valueOverflow identifier previous)

/-- Number a list of named values, the named value before which has the number `previous`. -/
def numberItemsAfter (previous : Option String) :
    List (ListItem (Option String)) → Except Defect (List (ListItem String))
  | [] => return []
  | .extension :: items => do
    return .extension :: (← numberItemsAfter previous items)
  | .named identifier (some number) :: items => do
    return .named identifier number :: (← numberItemsAfter (some number) items)
  | .named identifier none :: items => do
    let number ← match previous with
      | none => pure "0"
      | some previous => successor identifier previous
    return .named identifier number :: (← numberItemsAfter (some number) items)

/-- Number a list of named values. -/
def numberItems : List (ListItem (Option String)) → Except Defect (List (ListItem String)) :=
  numberItemsAfter none

end AsnModel
