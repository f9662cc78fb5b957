import UnitCheck.Number.Reader

/-!
  Decimal numbers with a fixed point: a coefficient below `2 ^ 96` and at most 28 digits
  after the point. Zeros at the end of the fraction belong to the number, so `1.50` and
  `1.5` are written differently although they are the same amount.

  A text with more digits than fit is cut where the next digit would not fit, and that digit
  decides the rounding. A text with an exponent is the number before it with its point moved.
  Underscores may separate digits.

  A zero is read without a sign. Only where moving the point rounds a negative number to zero does
  the sign stay; it is written, but the amount is that of any other zero.
-/

namespace UnitCheck.Number

/-- Coefficients are below this bound. -/
def Decimal.coefficientBound : Nat := Nat.pow 2 96

/-- The greatest number of digits after the point. -/
def Decimal.maxScale : Nat := 28

/-- A decimal number with a fixed point. -/
structure Decimal where
  negative : Bool
  coefficient : Nat
  scale : Nat
  coefficient_lt : coefficient < Decimal.coefficientBound
  scale_le : scale ≤ Decimal.maxScale
  deriving DecidableEq

namespace Decimal

/-- The number with the given parts, if they are in range. -/
def ofParts? (negative : Bool) (coefficient scale : Nat) : Option Decimal :=
  if h : coefficient < coefficientBound ∧ scale ≤ maxScale then
    some ⟨negative, coefficient, scale, h.1, h.2⟩
  else none

/-- The coefficient with the sign. -/
def signedCoefficient (a : Decimal) : Int := if a.negative then -a.coefficient else a.coefficient

/-- Whether two decimals are the same amount. -/
def sameAmount (a b : Decimal) : Bool :=
  a.signedCoefficient * Nat.pow 10 b.scale = b.signedCoefficient * Nat.pow 10 a.scale

/-! ## Text -/

/-- The coefficient with the point at its place. -/
def magnitudeText (a : Decimal) : List Char :=
  let ds := Nat.toDigits 10 a.coefficient
  let ds := List.replicate (a.scale + 1 - ds.length) '0' ++ ds
  ds.take (ds.length - a.scale) ++
    if a.scale = 0 then [] else '.' :: ds.drop (ds.length - a.scale)

/-- The number with exactly `scale` digits after the point. -/
def text (a : Decimal) : List Char :=
  (if a.negative then ['-'] else []) ++ a.magnitudeText

/-! ## Reading -/

/-- The value of a digit. -/
def digitValue (c : Char) : Nat := c.toNat - '0'.toNat

/-- A coefficient and its scale, rounded by the first digit that did not fit. -/
def roundBy (coefficient scale : Nat) (digit : Nat) : Option (Nat × Nat) :=
  if digit < 5 then some (coefficient, scale)
  else if coefficient + 1 < coefficientBound then some (coefficient + 1, scale)
  else if scale = 0 then none
  -- Rounding up has left the range, so a digit of the fraction is given up.
  else some ((coefficient + 1 + 4) / 10, scale - 1)

/-- An underscore between digits. -/
def isSeparator (c : Char) : Bool := c = '_'

/-- A coefficient below this bound is short: it fits 64 bits with a byte to spare. -/
def shortBound : Nat := Nat.pow 2 64 - Nat.pow 2 8

/-- The digits of a fraction, appended to a coefficient, with separators skipped. What follows a
    digit that does not fit has no weight, but it has to be digits and separators. A separator in
    the place of that digit counts as a zero where a short coefficient has all its places. -/
def readFraction (coefficient scale : Nat) : List Char → Option (Nat × Nat)
  | [] => some (coefficient, scale)
  | c :: cs =>
    let cut (digit : Nat) : Option (Nat × Nat) :=
      if cs.all fun c => c.isDigit || isSeparator c then roundBy coefficient scale digit else none
    if isSeparator c then
      if maxScale ≤ scale ∧ coefficient < shortBound then cut 0
      else readFraction coefficient scale cs
    else if !c.isDigit then none
    else if maxScale ≤ scale ∨ coefficientBound ≤ coefficient * 10 + digitValue c then
      cut (digitValue c)
    else readFraction (coefficient * 10 + digitValue c) (scale + 1) cs

/-- The coefficient and the scale of an unsigned number without an exponent. Its first character
    but for a point is a digit. -/
def readUnsigned (cs : List Char) : Option (Nat × Nat) :=
  let startsWithDigit (cs : List Char) : Bool := cs.head?.any Char.isDigit
  let isWhole (c : Char) : Bool := c.isDigit || isSeparator c
  let digits := cs.takeWhile isWhole
  let whole := Nat.ofDigitChars 10 (digits.filter Char.isDigit) 0
  if coefficientBound ≤ whole then none
  else
    match cs.dropWhile isWhole with
    | [] => if startsWithDigit digits then some (whole, 0) else none
    | '.' :: fraction =>
      if startsWithDigit (digits ++ fraction) then readFraction whole 0 fraction else none
    | _ => none

/-- A number without an exponent. -/
def readPlain (cs : List Char) : Option Decimal := do
  let (negative, unsigned) := splitSign cs
  let (coefficient, scale) ← readUnsigned unsigned
  ofParts? (negative && coefficient != 0) coefficient scale

/-- The quotient rounded to the nearest integer, a half going up. -/
def roundHalfUp (num den : Nat) : Nat := (2 * num + den) / (2 * den)

/-- The number with its point moved to the left by at most `maxScale` places. Digits past
    the last place are rounded away. -/
def shiftLeft (a : Decimal) (n : Nat) : Option Decimal :=
  if maxScale < n then none
  else
    let excess := a.scale + n - maxScale
    ofParts? a.negative (roundHalfUp a.coefficient (Nat.pow 10 excess)) (a.scale + n - excess)

/-- The number with its point moved to the right. Where the point passes the last digit,
    zeros are appended. -/
def shiftRight (a : Decimal) (n : Nat) : Option Decimal :=
  if n ≤ a.scale then ofParts? a.negative a.coefficient (a.scale - n)
  else if maxScale < n then none
  else ofParts? a.negative (a.coefficient * Nat.pow 10 (n - a.scale)) 0

/-- The size of an exponent, which may have a plus sign and has to fit 32 bits. -/
def readPower (power : List Char) : Option Nat :=
  let digits := if power.head? = some '+' then power.tail else power
  let n := Nat.ofDigitChars 10 digits 0
  if digits.isEmpty || !digits.all Char.isDigit || UInt32.size ≤ n then none else some n

/-- A number with an exponent. -/
def readScientific (cs : List Char) : Option Decimal :=
  let isMark (c : Char) : Bool := c = 'e' ∨ c = 'E'
  match cs.dropWhile fun c => !isMark c with
  | [] => none
  | _ :: power => do
    let base ← readPlain (cs.takeWhile fun c => !isMark c)
    match power with
    | '-' :: power => base.shiftLeft (← readPower power)
    | power => base.shiftRight (← readPower power)

/-- The decimal that a text denotes. -/
def read (cs : List Char) : Option Decimal := (readPlain cs).or (readScientific cs)

end Decimal

end UnitCheck.Number
