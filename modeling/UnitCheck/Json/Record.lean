import UnitCheck.Json.Reader
import UnitCheck.Json.Writer

/-!
  Records in JSON. A record is an object whose keys name its fields, in any order, or an array of
  its fields in their order. An object may have other keys, but no field twice; an array may end
  early, but must not be too long.
-/

namespace UnitCheck.Json

/-- The values of a key. -/
def valuesOf (members : List (String × Value)) (key : String) : List Value :=
  (members.filter fun member => member.1 = key).map Prod.snd

/-- The members of an object, if all its keys are texts. -/
def textMembers (members : List (Option String × Value)) : Option (List (String × Value)) :=
  members.mapM fun (key, value) => key.map fun key => (key, value)

/-- The fields of a record by their keys; a field that is not given is nothing. -/
def fields (keys : List String) : Value → Option (List (Option Value))
  | .object members => do
    let members ← textMembers members
    keys.mapM fun key =>
      match valuesOf members key with
      | [] => some none
      | [value] => some (some value)
      | _ => none
  | .array items =>
    if items.length ≤ keys.length then
      some (items.map some ++ List.replicate (keys.length - items.length) none)
    else none
  | _ => none

namespace Value

/-- The text of a string. -/
def toText? : Value → Option String
  | string text => text
  | _ => none

/-- A floating-point number. -/
def toFloat? : Value → Option Float
  | number chars => Json.toFloat? chars
  | _ => none

/-- The items of an array, each read in the same way. -/
def toList? {α : Type} (read : Value → Option α) : Value → Option (List α)
  | array items => items.mapM read
  | _ => none

end Value

/-- A floating-point field, zero where it is not given. -/
def optionalFloat? : Option Value → Option Float
  | some value => value.toFloat?
  | none => some 0.0

/-- A list field, empty where it is not given. -/
def optionalList? {α : Type} (read : Value → Option α) : Option Value → Option (List α)
  | some value => value.toList? read
  | none => some []

end UnitCheck.Json
