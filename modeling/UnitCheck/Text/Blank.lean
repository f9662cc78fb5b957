import UnitCheck.Text.Span

/-!
  The characters with the Unicode property White_Space: the separators that
  every reader of this library skips. The zero-width space U+200B and the byte
  order mark U+FEFF are not among them.
-/

namespace UnitCheck.Text

/-- The code points of White_Space. -/
def blankSpans : List (Nat × Nat) :=
  [(0x9, 0xD), (0x20, 0x20), (0x85, 0x85), (0xA0, 0xA0), (0x1680, 0x1680), (0x2000, 0x200A),
  (0x2028, 0x2029), (0x202F, 0x202F), (0x205F, 0x205F), (0x3000, 0x3000)]

/-- A character that separates words. -/
def isBlank (c : Char) : Bool := inSpans blankSpans c.toNat

/-- The text without its leading blanks. -/
def skipBlanks (cs : List Char) : List Char := cs.dropWhile isBlank

/-- The text without blanks at either end. -/
def trimBlanks (cs : List Char) : List Char :=
  (skipBlanks (skipBlanks cs).reverse).reverse

@[simp] theorem skipBlanks_nil : skipBlanks [] = [] := rfl

theorem skipBlanks_cons (c : Char) (cs : List Char) :
    skipBlanks (c :: cs) = if isBlank c then skipBlanks cs else c :: cs := by
  simp [skipBlanks, List.dropWhile_cons]

/-- The leading blanks are what is skipped. -/
theorem drop_blanks (cs : List Char) : cs.drop (cs.takeWhile isBlank).length = skipBlanks cs := by
  induction cs with
  | nil => rfl
  | cons c cs ih => by_cases h : isBlank c <;> simp [skipBlanks_cons, h, ih]

theorem skipBlanks_length_le (cs : List Char) : (skipBlanks cs).length ≤ cs.length :=
  (List.dropWhile_suffix isBlank).length_le

/-- What is left starts with a character that is no blank. -/
theorem not_isBlank_of_skipBlanks_eq_cons {cs : List Char} {c : Char} {rest : List Char}
    (h : skipBlanks cs = c :: rest) : isBlank c = false := by
  induction cs with
  | nil => simp at h
  | cons d ds ih =>
    rw [skipBlanks_cons] at h
    split at h
    · exact ih h
    · next hd =>
      injection h with hc _
      subst hc
      simpa using hd

@[simp] theorem isBlank_space : isBlank ' ' = true := by decide

end UnitCheck.Text
