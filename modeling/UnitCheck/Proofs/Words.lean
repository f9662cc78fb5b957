import UnitCheck.Parser.Literal
import UnitCheck.Token.Lexer

/-!
  Tokens without their places.

  What a text means depends on the kinds and the values of its tokens only, so the grammar and
  the laws of rendering are stated about `Word`s. `Word.scan` reads them off the characters of a
  text without counting lines and columns, and agrees with the tokens (`map_word_scan`).
-/

namespace UnitCheck

/-- A token without its place. -/
structure Word where
  kind : Token.Kind
  value : String
  deriving DecidableEq

/-- A token with its place forgotten. -/
def Token.word (token : Token) : Word := ⟨token.kind, token.value⟩

@[simp] theorem Token.kind_word (token : Token) : token.word.kind = token.kind := rfl

@[simp] theorem Token.value_word (token : Token) : token.word.value = token.value := rfl

namespace Word

/-- The word at the end of a text. -/
def endOfText : Word := ⟨.eof, ""⟩

/-- The words of a text, with that of its end. -/
def ofText (text : String) : List Word := (Token.ofText text).map Token.word

/-- The value of a literal, if the word is one. -/
def literal? (word : Word) : Option (Except SyntaxError Literal) :=
  Parser.literalValue? ⟨word.kind, word.value, .start⟩

/-- The words from some characters on. -/
def scan (cs : List Char) : List Word :=
  match _hcs : Text.skipBlanks cs with
  | [] => []
  | c :: rest =>
    let lexeme := Lexeme.atStart c rest
    ⟨lexeme.kind, lexeme.value⟩ :: scan ((c :: rest).drop lexeme.length)
termination_by cs.length
decreasing_by
  have hle := Text.skipBlanks_length_le cs
  have hpos := Lexeme.atStart_length_pos c rest
  rw [_hcs] at hle
  simp only [List.length_cons, List.length_drop] at hle ⊢
  omega

theorem scan_of_blank {cs : List Char} (h : Text.skipBlanks cs = []) : scan cs = [] := by
  rw [scan]
  split
  · rfl
  · next heq => rw [h] at heq; contradiction

theorem scan_of_cons {cs : List Char} {c : Char} {rest : List Char}
    (h : Text.skipBlanks cs = c :: rest) :
    scan cs = ⟨(Lexeme.atStart c rest).kind, (Lexeme.atStart c rest).value⟩ ::
      scan ((c :: rest).drop (Lexeme.atStart c rest).length) := by
  rw [scan]
  split
  · next heq => rw [h] at heq; contradiction
  · next d ds heq =>
    rw [h] at heq
    injection heq with hc hrest
    subst hc hrest
    rfl

end Word

/-- The value of a literal does not depend on its place. -/
theorem Token.literal?_word (token : Token) :
    token.word.literal? = Parser.literalValue? token := rfl

/-- The words of the scanned tokens. -/
theorem map_word_scan (cursor : Cursor) : cursor.scan.1.map Token.word = Word.scan cursor.rest := by
  fun_induction Cursor.scan cursor with
  | case1 cursor h => rw [Word.scan_of_blank h, List.map_nil]
  | case2 cursor h tokens finish heq ih =>
    cases hr : Text.skipBlanks cursor.rest with
    | nil => exact absurd hr h
    | cons c rest =>
      rw [Word.scan_of_cons hr, List.map_cons]
      rw [heq] at ih
      rw [ih, Cursor.next_of_cons hr, Cursor.rest_advance, Cursor.rest_skipBlanks, hr]
      rfl

theorem Word.ofText_eq (text : String) : ofText text = scan text.toList ++ [endOfText] := by
  rw [ofText, Token.ofText, List.map_append, map_word_scan]
  rfl

end UnitCheck
