/-
  Escapes of character and string literals.

  Writing leaves printable ASCII as it is, apart from the quotes and the backslash; the
  three usual control characters have a letter, and everything else is written by its code
  point. Reading knows the letters only: a backslash before any other character stands for
  itself.
-/

namespace UnitCheck.Text

/-- A character as it is written in a literal. -/
def escapeChar (c : Char) : List Char :=
  match c with
  | '\t' => ['\\', 't']
  | '\r' => ['\\', 'r']
  | '\n' => ['\\', 'n']
  | '\'' => ['\\', '\'']
  | '"' => ['\\', '"']
  | '\\' => ['\\', '\\']
  | c =>
    if 0x20 ≤ c.toNat ∧ c.toNat ≤ 0x7e then [c]
    else ['\\', 'u', '\x7b'] ++ Nat.toDigits 16 c.toNat ++ ['\x7d']

/-- A text as it is written in a literal. -/
def escape (cs : List Char) : List Char := cs.flatMap escapeChar

/-- A text as it is written in a literal, between quotes. -/
def quote (mark : Char) (cs : List Char) : List Char := mark :: (escape cs ++ [mark])

/-- What a backslash with the given character stands for. -/
def unescapeChar (c : Char) : List Char :=
  match c with
  | 'n' => ['\n']
  | 'r' => ['\r']
  | 't' => ['\t']
  | '\\' => ['\\']
  | '"' => ['"']
  | '\'' => ['\'']
  | c => ['\\', c]

/-- The text up to the closing quote and what follows it, if the quote is closed. -/
def readQuoted (mark : Char) : List Char → Option (List Char × List Char)
  | [] => none
  | c :: cs =>
    if c = mark then some ([], cs)
    else if c = '\\' then
      match cs with
      | [] => none
      | e :: cs => (readQuoted mark cs).map fun (value, rest) => (unescapeChar e ++ value, rest)
    else (readQuoted mark cs).map fun (value, rest) => (c :: value, rest)

end UnitCheck.Text
