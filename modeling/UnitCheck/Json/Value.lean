/-
  JSON values.

  A number is kept as it is written, since its value depends on what reads it. A string
  that names half of a surrogate pair alone holds no text; such strings may stand where nobody
  looks at them.
-/

namespace UnitCheck.Json

/-- A JSON value. -/
inductive Value where
  | null
  | bool (value : Bool)
  /-- A number, by its characters. -/
  | number (chars : List Char)
  /-- A string, by the text it holds, if it holds one. -/
  | string (text : Option String)
  | array (items : List Value)
  /-- An object, by its members in order. Keys may repeat. -/
  | object (members : List (Option String × Value))

namespace Value

/-- A string that holds a text. -/
def text (s : String) : Value := string (some s)

/-- An object with the given keys. -/
def record (members : List (String × Value)) : Value :=
  object (members.map fun (key, value) => (some key, value))

end Value

end UnitCheck.Json
