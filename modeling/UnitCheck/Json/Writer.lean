import UnitCheck.Json.Number
import UnitCheck.Json.Text

/-!
  Writing JSON: on one line without blanks, or with a line for each part, indented by two blanks
  a level.
-/

namespace UnitCheck.Json

/-- A number that is not finite is written as `null`. -/
def Value.ofFloat (x : Float) : Value :=
  match numberText? x with
  | some chars => .number chars
  | none => .null

/-- An integer as JSON. -/
def Value.ofNat (n : Nat) : Value := .number (Nat.toDigits 10 n)

/-- A string; one that holds no text is written as `null`. -/
def optionalText : Option String → List Char
  | some s => stringText s.toList
  | none => ['n', 'u', 'l', 'l']

/-- The blanks before a line. -/
def indentation (level : Nat) : List Char := List.replicate (2 * level) ' '

/-- How the parts of arrays and objects are set off. -/
inductive Layout where
  | compact
  | pretty
  deriving DecidableEq

namespace Layout

/-- The start of a new line at a level. -/
def newline (layout : Layout) (level : Nat) : List Char :=
  match layout with
  | compact => []
  | pretty => '\n' :: indentation level

/-- What stands between a key and its value. -/
def colon : Layout → List Char
  | compact => [':']
  | pretty => [':', ' ']

end Layout

mutual
/-- A value at a level. -/
def valueText (layout : Layout) (level : Nat) : Value → List Char
  | .null => ['n', 'u', 'l', 'l']
  | .bool true => ['t', 'r', 'u', 'e']
  | .bool false => ['f', 'a', 'l', 's', 'e']
  | .number chars => chars
  | .string text => optionalText text
  | .array [] => ['[', ']']
  | .array (item :: items) =>
    '[' :: (layout.newline (level + 1) ++ valueText layout (level + 1) item ++
      itemsText layout (level + 1) items ++ layout.newline level ++ [']'])
  | .object [] => ['\x7b', '\x7d']
  | .object ((key, value) :: members) =>
    '\x7b' :: (layout.newline (level + 1) ++ optionalText key ++ layout.colon ++
      valueText layout (level + 1) value ++ membersText layout (level + 1) members ++
      layout.newline level ++ ['\x7d'])

/-- The items after the first. -/
def itemsText (layout : Layout) (level : Nat) : List Value → List Char
  | [] => []
  | item :: items =>
    ',' :: (layout.newline level ++ valueText layout level item ++ itemsText layout level items)

/-- The members after the first. -/
def membersText (layout : Layout) (level : Nat) : List (Option String × Value) → List Char
  | [] => []
  | (key, value) :: members =>
    ',' :: (layout.newline level ++ optionalText key ++ layout.colon ++
      valueText layout level value ++ membersText layout level members)
end

/-- The value on one line. -/
def Value.compact (value : Value) : String := String.ofList (valueText .compact 0 value)

/-- The value on lines of its own. -/
def Value.pretty (value : Value) : String := String.ofList (valueText .pretty 0 value)

end UnitCheck.Json
