import UnitCheck.Json.Number
import UnitCheck.Json.Text

/-!
  Reading JSON.

  Each reader below gives what it has read and what is left of the text, together with the
  proof that less is left; the text ends the recursion. A value may be nested to any depth.
-/

namespace UnitCheck.Json

/-- A blank between the parts of a JSON text. -/
def isSpace (c : Char) : Bool := c = ' ' || c = '\n' || c = '\t' || c = '\r'

/-- The text without its leading blanks. -/
def skipSpaces (cs : List Char) : List Char := cs.dropWhile isSpace

theorem skipSpaces_length_le (cs : List Char) : (skipSpaces cs).length ≤ cs.length :=
  (List.dropWhile_suffix isSpace).length_le

/-- What a reader has read, and what is left of the text. -/
structure Read (α : Type) (cs : List Char) where
  value : α
  rest : List Char
  shorter : rest.length < cs.length

namespace Read

variable {α β : Type}

/-- A reading of a part of the text as a reading of the whole. -/
def widen {cs ds : List Char} (read : Read α cs) (h : cs.length ≤ ds.length) : Read α ds :=
  ⟨read.value, read.rest, Nat.lt_of_lt_of_le read.shorter h⟩

/-- A reading with its value changed. -/
def map {cs : List Char} (f : α → β) (read : Read α cs) : Read β cs :=
  ⟨f read.value, read.rest, read.shorter⟩

/-- A reading from what another one has left. -/
def after {cs : List Char} (first : Read α cs) (second : Read β first.rest) : Read β cs :=
  ⟨second.value, second.rest, Nat.lt_trans second.shorter first.shorter⟩

end Read

/-- A given character, after blanks. -/
def readMark (mark : Char) (cs : List Char) : Option (Read Unit cs) :=
  match h : skipSpaces cs with
  | [] => none
  | c :: rest =>
    if c = mark then
      some ⟨(), rest, by
        have := skipSpaces_length_le cs
        rw [h, List.length_cons] at this
        omega⟩
    else none

/-- The given characters in a row. -/
def readWord (word cs : List Char) (h : 0 < word.length) : Option (Read Unit cs) :=
  if hp : word <+: cs then
    some ⟨(), cs.drop word.length, by
      have := hp.length_le
      rw [List.length_drop]
      omega⟩
  else none

/-- A string, after blanks. -/
def readText (cs : List Char) : Option (Read (Option String) cs) := do
  let mark ← readMark '"' cs
  match h : readString mark.rest with
  | none => none
  | some (text, rest) => some ⟨text, rest, Nat.lt_trans (readString_length_lt h) mark.shorter⟩

/-- A number. -/
def readNumber (cs : List Char) : Option (Read Value cs) :=
  match h : readNumber? cs with
  | some (chars, rest) => some ⟨.number chars, rest, readNumber?_length_lt h⟩
  | none => none

/-- A value without other values inside. -/
def readAtom (cs : List Char) : Option (Read Value cs) :=
  ((readWord ['n', 'u', 'l', 'l'] cs (by decide)).map (·.map fun () => .null)).or <|
  ((readWord ['t', 'r', 'u', 'e'] cs (by decide)).map (·.map fun () => .bool true)).or <|
  ((readWord ['f', 'a', 'l', 's', 'e'] cs (by decide)).map (·.map fun () => .bool false)).or <|
  readNumber cs

mutual
/-- A value, after blanks. -/
def readValue (cs : List Char) : Option (Read Value cs) :=
  match readMark '[' cs with
  | some opening =>
    match readMark ']' opening.rest with
    | some closing => some ((opening.after closing).map fun () => .array [])
    | none => do
      let items ← readItems opening.rest
      return (opening.after items).map .array
  | none =>
    match readMark '\x7b' cs with
    | some opening =>
      match readMark '\x7d' opening.rest with
      | some closing => some ((opening.after closing).map fun () => .object [])
      | none => do
        let members ← readMembers opening.rest
        return (opening.after members).map .object
    | none =>
      match readText cs with
      | some text => some (text.map .string)
      | none => do
        let atom ← readAtom (skipSpaces cs)
        return atom.widen (skipSpaces_length_le cs)
termination_by (cs.length, 0)
decreasing_by
  · have := opening.shorter
    exact Prod.Lex.left _ _ (by omega)
  · have := opening.shorter
    exact Prod.Lex.left _ _ (by omega)

/-- Items up to the end of an array. -/
def readItems (cs : List Char) : Option (Read (List Value) cs) := do
  let item ← readValue cs
  match readMark ']' item.rest with
  | some closing => return (item.after closing).map fun () => [item.value]
  | none =>
    let comma ← readMark ',' item.rest
    let items ← readItems comma.rest
    return (item.after (comma.after items)).map (item.value :: ·)
termination_by (cs.length, 1)
decreasing_by
  · exact Prod.Lex.right _ (by omega)
  · have := item.shorter
    have := comma.shorter
    exact Prod.Lex.left _ _ (by omega)

/-- Members up to the end of an object. -/
def readMembers (cs : List Char) : Option (Read (List (Option String × Value)) cs) := do
  let key ← readText cs
  let colon ← readMark ':' key.rest
  let value ← readValue colon.rest
  let member := (key.value, value.value)
  let read := key.after (colon.after value)
  match readMark '\x7d' read.rest with
  | some closing => return (read.after closing).map fun () => [member]
  | none =>
    let comma ← readMark ',' read.rest
    let members ← readMembers comma.rest
    return (read.after (comma.after members)).map (member :: ·)
termination_by (cs.length, 1)
decreasing_by
  · have := key.shorter
    have := colon.shorter
    exact Prod.Lex.left _ _ (by omega)
  · have := read.shorter
    have := comma.shorter
    exact Prod.Lex.left _ _ (by omega)
end

/-- The value that a whole text denotes. -/
def Value.ofText (text : String) : Option Value := do
  let read ← readValue text.toList
  if skipSpaces read.rest = [] then return read.value else none

end UnitCheck.Json
