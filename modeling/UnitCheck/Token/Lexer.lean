import UnitCheck.Text.Blank
import UnitCheck.Text.Escape
import UnitCheck.Token.Basic
import UnitCheck.Token.Numeral

/-!
  The tokens of a text.

  `Lexeme.atStart` says which token a text starts with and how many of its characters the
  token takes, at least one. A `Cursor` skips blanks and moves past lexemes; at the end of the
  text it stays where it is.
-/

namespace UnitCheck

/-! ## Failures -/

/-- Why text is no token. -/
inductive LexicalError where
  | unexpectedCharacter (c : Char)
  | unterminatedString
  | unterminatedCharacter
  /-- A character literal holds this text instead of one character. -/
  | characterLength (value : String)
  deriving DecidableEq

/-- The failure in words. -/
def LexicalError.message : LexicalError → String
  | unexpectedCharacter c => "Unexpected character: " ++ c.toString
  | unterminatedString => "String error: Parse error: Unterminated string literal"
  | unterminatedCharacter => "Character error: Parse error: Unterminated character literal"
  | characterLength value =>
    "Character error: Parse error: Character literal must hold exactly one character, got '" ++
      value ++ "'"

/-! ## Lexemes -/

/-- A token without its place. -/
structure Lexeme where
  kind : Token.Kind
  value : String
  /-- How many characters it takes. -/
  length : Nat
  deriving DecidableEq

namespace Lexeme

/-- Text that is no token. -/
def invalid (error : LexicalError) (length : Nat) : Lexeme := ⟨.invalid, error.message, length⟩

/-- The kind of a word. -/
def wordKind (word : String) : Token.Kind :=
  match Keyword.ofText? word with
  | some keyword => .keyword keyword
  | none => if (ValueType.ofName? word).isSome then .typeName else .identifier

/-- A string literal, after its opening quote. -/
def string (cs : List Char) : Lexeme :=
  match Text.readQuoted '"' cs with
  | some (value, rest) =>
    ⟨.stringLiteral, String.ofList value, 1 + (cs.length - rest.length)⟩
  | none => invalid .unterminatedString (1 + cs.length)

/-- A character literal, after its opening quote. -/
def character (cs : List Char) : Lexeme :=
  match Text.readQuoted '\'' cs with
  | some (value, rest) =>
    let length := 1 + (cs.length - rest.length)
    if value.length = 1 then ⟨.charLiteral, String.ofList value, length⟩
    else invalid (.characterLength (String.ofList value)) length
  | none => invalid .unterminatedCharacter (1 + cs.length)

/-- A number. -/
def numeral (cs : List Char) : Lexeme :=
  let n := Numeral.atStart cs
  ⟨if n.isReal then .realLiteral else .intLiteral, String.ofList n.chars, n.chars.length⟩

/-- A word. -/
def word (cs : List Char) : Lexeme :=
  let run := cs.takeWhile isIdentifierChar
  ⟨wordKind (String.ofList run), String.ofList run, run.length⟩

/-- The lexeme at the start of a text, given by its first character and what follows. -/
def atStart (c : Char) (cs : List Char) : Lexeme :=
  match Symbol.atStart? (c :: cs) with
  | some symbol => ⟨.symbol symbol, String.ofList symbol.chars, symbol.chars.length⟩
  | none =>
    if c = '"' then string cs
    else if c = '\'' then character cs
    else if c.isDigit then numeral (c :: cs)
    else if isIdentifierStart c then word (c :: cs)
    else invalid (.unexpectedCharacter c) 1

theorem numeral_length_pos {c : Char} {cs : List Char} (h : c.isDigit) :
    0 < (numeral (c :: cs)).length := by
  have hw : (Numeral.atStart (c :: cs)).whole ≠ [] := by
    unfold Numeral.atStart
    simp only [Number.splitDigits, List.takeWhile_cons, h, if_true]
    split <;> simp
  simp only [numeral, Numeral.chars, Numeral.number, List.length_append]
  have := List.length_pos_iff.2 hw
  omega

theorem word_length_pos {c : Char} {cs : List Char} (h : isIdentifierStart c) :
    0 < (word (c :: cs)).length := by
  have hc : isIdentifierChar c := by
    simp only [isIdentifierStart, isIdentifierChar, Text.isAlphanumeric, Bool.or_eq_true] at h ⊢
    rcases h with h | h
    · exact .inl (.inl h)
    · exact .inr h
  simp [word, hc]

/-- A lexeme takes at least one character. -/
theorem atStart_length_pos (c : Char) (cs : List Char) : 0 < (atStart c cs).length := by
  -- The cases are the kinds of lexemes, in the order in which they are tried.
  unfold atStart
  split
  · next symbol _ => exact symbol.chars_length_pos
  · split
    · unfold string
      split <;> simp only [invalid] <;> omega
    · split
      · unfold character
        split
        · dsimp only
          split <;> simp only [invalid] <;> omega
        · simp only [invalid]
          omega
      · split
        · next h => exact numeral_length_pos h
        · split
          · next h => exact word_length_pos h
          · simp [invalid]

end Lexeme

/-! ## Reading on -/

/-- What is left of a text, and the place where that starts. -/
structure Cursor where
  rest : List Char
  place : Place
  deriving DecidableEq

namespace Cursor

/-- The start of a text. -/
def start (cs : List Char) : Cursor := ⟨cs, .start⟩

/-- The cursor after the given number of characters. -/
def advance : Nat → Cursor → Cursor
  | 0, cursor => cursor
  | n + 1, cursor =>
    match cursor.rest with
    | [] => cursor
    | c :: rest => advance n ⟨rest, cursor.place.after c⟩

/-- The cursor after the blanks. -/
def skipBlanks (cursor : Cursor) : Cursor :=
  cursor.advance (cursor.rest.takeWhile Text.isBlank).length

/-- The next token, and the cursor after it. -/
def next (cursor : Cursor) : Token × Cursor :=
  let cursor := cursor.skipBlanks
  match cursor.rest with
  | [] => (.endOfText cursor.place, cursor)
  | c :: cs =>
    let lexeme := Lexeme.atStart c cs
    (⟨lexeme.kind, lexeme.value, cursor.place⟩, cursor.advance lexeme.length)

@[simp] theorem rest_advance (n : Nat) (cursor : Cursor) :
    (cursor.advance n).rest = cursor.rest.drop n := by
  induction n generalizing cursor with
  | zero => simp [advance]
  | succ n ih =>
    rw [advance]
    split
    · next h => simp [h]
    · next c rest h => simp [ih, h]

theorem rest_skipBlanks (cursor : Cursor) :
    cursor.skipBlanks.rest = Text.skipBlanks cursor.rest := by
  rw [skipBlanks, rest_advance, Text.drop_blanks]

theorem next_of_blank {cursor : Cursor} (h : Text.skipBlanks cursor.rest = []) :
    cursor.next = (.endOfText cursor.skipBlanks.place, cursor.skipBlanks) := by
  rw [← rest_skipBlanks] at h
  simp only [next, h]

theorem next_of_cons {cursor : Cursor} {c : Char} {cs : List Char}
    (h : Text.skipBlanks cursor.rest = c :: cs) :
    cursor.next =
      (⟨(Lexeme.atStart c cs).kind, (Lexeme.atStart c cs).value, cursor.skipBlanks.place⟩,
        cursor.skipBlanks.advance (Lexeme.atStart c cs).length) := by
  rw [← rest_skipBlanks] at h
  simp only [next, h]

/-- Past a token less text is left. -/
theorem next_length_lt {cursor : Cursor} (h : Text.skipBlanks cursor.rest ≠ []) :
    cursor.next.2.rest.length < cursor.rest.length := by
  cases hr : Text.skipBlanks cursor.rest with
  | nil => exact absurd hr h
  | cons c cs =>
    rw [next_of_cons hr, rest_advance, rest_skipBlanks, hr, List.length_drop]
    have hle := Text.skipBlanks_length_le cursor.rest
    have hpos := Lexeme.atStart_length_pos c cs
    rw [hr] at hle
    simp only [List.length_cons] at hle ⊢
    omega

/-- The tokens from a cursor on, and the place where the text ends. -/
def scan (cursor : Cursor) : List Token × Place :=
  if _ : Text.skipBlanks cursor.rest = [] then ([], cursor.skipBlanks.place)
  else
    let (tokens, finish) := cursor.next.2.scan
    (cursor.next.1 :: tokens, finish)
termination_by cursor.rest.length
decreasing_by exact next_length_lt ‹_›

end Cursor

/-- The tokens of a text, with that of its end. -/
def Token.ofText (text : String) : List Token :=
  let (tokens, finish) := (Cursor.start text.toList).scan
  tokens ++ [.endOfText finish]

end UnitCheck
