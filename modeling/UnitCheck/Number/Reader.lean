import UnitCheck.Number.Binary

/-!
  Reading a floating-point number: a sign, then digits with at most one point and
  maybe an exponent, or one of the words `inf`, `infinity` and `nan` in any letter
  case. At least one digit has to stand before or after the point. The value is
  rounded once, from the exact decimal.
-/

namespace UnitCheck.Number

/-- A text without a sign at its start, and whether that sign is a minus. -/
def splitSign : List Char → Bool × List Char
  | '-' :: cs => (true, cs)
  | '+' :: cs => (false, cs)
  | cs => (false, cs)

/-- The digits at the start of a text, and the text after them. -/
def splitDigits (cs : List Char) : List Char × List Char :=
  (cs.takeWhile Char.isDigit, cs.dropWhile Char.isDigit)

theorem splitDigits_append (cs : List Char) : (splitDigits cs).1 ++ (splitDigits cs).2 = cs :=
  List.takeWhile_append_dropWhile

/-- The digits after a point at the start of a text, and the text after them. -/
def splitFraction : List Char → List Char × List Char
  | '.' :: cs => splitDigits cs
  | cs => ([], cs)

/-- The exponent that is the whole text: nothing for zero, or `e` with an integer. -/
def readExponent : List Char → Option Int
  | [] => some 0
  | c :: cs =>
    if c = 'e' ∨ c = 'E' then
      let (negative, digits) := splitSign cs
      if digits.isEmpty || !digits.all Char.isDigit then none
      else
        let value : Int := Nat.ofDigitChars 10 digits 0
        some (if negative then -value else value)
    else none

/-- The code of the magnitude that an unsigned decimal denotes. -/
def Format.readDecimal (f : Format) (cs : List Char) : Option Nat :=
  let (whole, rest) := splitDigits cs
  let (fraction, rest) := splitFraction rest
  if whole.isEmpty && fraction.isEmpty then none
  else
    (readExponent rest).map fun exponent =>
      f.nearestDecimal (Nat.ofDigitChars 10 (whole ++ fraction) 0) (exponent - fraction.length)

/-- The code of the magnitude that a word denotes. -/
def Format.readWord (f : Format) (cs : List Char) : Option Nat :=
  let word := String.ofList (cs.map Char.toLower)
  if word = "inf" ∨ word = "infinity" then some f.infinity
  else if word = "nan" then some (f.infinity + f.exponentUnit / 2)
  else none

/-- The sign and the code of the magnitude that a text denotes. -/
def Format.read (f : Format) (cs : List Char) : Option (Bool × Nat) :=
  let (negative, unsigned) := splitSign cs
  ((f.readDecimal unsigned).or (f.readWord unsigned)).map fun code => (negative, code)

end UnitCheck.Number
