import UnitCheck.Factor.Checked
import UnitCheck.Text.Blank

/-!
  Reading a factor.

  A factor is `1` or a product, then maybe a bar and a product. A product joins terms by `*`
  or `.`; a term is a symbol and maybe a caret with a power. Blanks may surround every part
  except inside a term. Everything after the bar is the denominator, so a second bar is an
  error.

  The reader works on what is left of the text. A failure holds the text that is left where
  it happened, and its position is the number of bytes before that.
-/

namespace UnitCheck

namespace Factor

open Text (isBlank skipBlanks skipBlanks_length_le)

/-! ## Symbols and powers -/

/-- A character of a symbol: no blank, operator or parenthesis. -/
def isSymbolChar (c : Char) : Bool :=
  !isBlank c && c != '*' && c != '.' && c != '/' && c != '^' && c != '(' && c != ')'

/-- A failure of reading, before its position is known. -/
inductive Fault where
  /-- The text that is left does not continue a factor. -/
  | malformed (rest : List Char) (reason : Malformed)
  /-- The powers of a symbol add up to more than `maxExponent`. -/
  | overflow (symbol : String)

/-- The power after a symbol, one where there is no caret, and the text after it. -/
def readPower : List Char → Except Fault (Exponent × List Char)
  | '^' :: cs =>
    let digits := cs.takeWhile Char.isDigit
    if digits.isEmpty then .error (.malformed cs .expectedExponent)
    else if Nat.ofDigitChars 10 digits 0 = 0 then .error (.malformed cs .zeroExponent)
    else
      match Exponent.ofNat? (Nat.ofDigitChars 10 digits 0) with
      | some power => .ok (power, cs.dropWhile Char.isDigit)
      | none => .error (.malformed cs .exponentOutOfRange)
  | cs => .ok (.one, cs)

/-- A symbol with its power, and the text after it. -/
def readTerm (cs : List Char) : Except Fault ((String × Exponent) × List Char) :=
  match cs.takeWhile isSymbolChar with
  | [] => .error (.malformed cs .expectedSymbol)
  | c :: symbol =>
    if c.isDigit then .error (.malformed cs .leadingDigit)
    else do
      let (power, rest) ← readPower (cs.dropWhile isSymbolChar)
      return ((String.ofList (c :: symbol), power), rest)

theorem readPower_length_le {cs rest : List Char} {p : Exponent}
    (h : readPower cs = .ok (p, rest)) : rest.length ≤ cs.length := by
  unfold readPower at h
  split at h
  · next ds =>
    simp only at h
    split at h
    · simp at h
    · split at h
      · simp at h
      · split at h
        · injection h with h
          injection h with _ h
          subst h
          -- Only digits are taken off.
          have := (List.dropWhile_suffix Char.isDigit (l := ds)).length_le
          simp
          omega
        · simp at h
  · injection h with h
    injection h with _ h
    simp [h]

/-- A term takes at least one character. -/
theorem readTerm_length_lt {cs rest : List Char} {e : String × Exponent}
    (h : readTerm cs = .ok (e, rest)) : rest.length < cs.length := by
  unfold readTerm at h
  split at h
  · simp at h
  · next c symbol htake =>
    split at h
    · simp at h
    · cases hp : readPower (cs.dropWhile isSymbolChar) with
      | error f => simp [hp, bind, Except.bind] at h
      | ok r =>
        obtain ⟨p, rest'⟩ := r
        simp only [hp, bind, Except.bind, pure, Except.pure] at h
        injection h with h
        injection h with _ h
        subst h
        -- The symbol is not empty, and its power puts nothing back.
        have hle := readPower_length_le hp
        have hsplit : cs.takeWhile isSymbolChar ++ cs.dropWhile isSymbolChar = cs :=
          List.takeWhile_append_dropWhile
        have hlen := congrArg List.length hsplit
        rw [htake, List.length_append, List.length_cons] at hlen
        omega

/-! ## Products and fractions -/

/-- A product on top of the powers read so far, and the text after it. -/
def readProduct (side : Terms) (cs : List Char) : Except Fault (Terms × List Char) :=
  match _ : readTerm (skipBlanks cs) with
  | .error fault => .error fault
  | .ok ((symbol, power), after) =>
    match side.add? symbol power with
    | none => .error (.overflow symbol)
    | some side =>
      match _ : skipBlanks after with
      | [] => .ok (side, [])
      | c :: rest =>
        if c = '*' ∨ c = '.' then readProduct side rest else .ok (side, c :: rest)
termination_by cs.length
decreasing_by
  have hlt := readTerm_length_lt ‹readTerm _ = _›
  have hblank := skipBlanks_length_le cs
  have hle := skipBlanks_length_le after
  rw [‹skipBlanks after = _›, List.length_cons] at hle
  omega

/-- The numerator, and the text after it. -/
def readNumerator (cs : List Char) : Except Fault (Terms × List Char) :=
  match skipBlanks cs with
  | [] => .error (.malformed [] .emptyExpression)
  | '1' :: rest => .ok (.empty, rest)
  | cs => readProduct .empty cs

/-- The denominator, empty where there is no bar, and the text after it. -/
def readDenominator (cs : List Char) : Except Fault (Terms × List Char) :=
  match skipBlanks cs with
  | '/' :: rest => readProduct .empty rest
  | cs => .ok (.empty, cs)

/-- A factor that is the whole text. -/
def read (cs : List Char) : Except Fault Factor := do
  let (numerator, rest) ← readNumerator cs
  let (denominator, rest) ← readDenominator rest
  match skipBlanks rest with
  | [] => return ⟨numerator, denominator⟩
  | rest => .error (.malformed rest .unexpectedCharacter)

/-! ## Positions -/

/-- The number of bytes a text takes. -/
def byteLength : List Char → Nat
  | [] => 0
  | c :: cs => c.utf8Size + byteLength cs

/-- A failure in a text, with the position of what was left. -/
def Fault.toError (whole : List Char) : Fault → UnitError
  | .malformed rest reason => .malformedText (byteLength whole - byteLength rest) reason
  | .overflow symbol => .exponentOverflow symbol

/-- The factor that a text denotes. -/
def ofChars (cs : List Char) : Except UnitError Factor := (read cs).mapError (·.toError cs)

/-- The factor that a text denotes. -/
def ofText (text : String) : Except UnitError Factor := ofChars text.toList

end Factor

end UnitCheck
