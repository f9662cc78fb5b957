import UnitCheck.Number.Binary

/-!
  The shortest decimal that reads back as a given binary magnitude.

  For one digit, two digits and so on the two neighbours of the magnitude on that decimal
  grid are read back; the first grid with a neighbour that gives the magnitude again wins.
  Of two such neighbours the nearer is taken. Where both are equally near, the caller says
  which.
-/

namespace UnitCheck.Number

/-- A decimal number `coefficient * 10 ^ exponent`. -/
structure Scientific where
  coefficient : Nat
  exponent : Int
  deriving DecidableEq

namespace Scientific

/-- The digits of the coefficient. -/
def digits (x : Scientific) : List Char := Nat.toDigits 10 x.coefficient

/-- The number of digits before the point when the number is written without an exponent;
    not positive for numbers below one tenth. -/
def pointPosition (x : Scientific) : Int := x.digits.length + x.exponent

/-- The same number with the last `n` zeros of the coefficient moved to the exponent. -/
def dropZeros (x : Scientific) : Nat → Scientific
  | 0 => x
  | n + 1 =>
    if x.coefficient % 10 = 0 then dropZeros ⟨x.coefficient / 10, x.exponent + 1⟩ n else x

/-- The same number without zeros at the end of the coefficient. -/
def normalize (x : Scientific) : Scientific := x.dropZeros (x.digits.length - 1)

end Scientific

/-- Which of two equally near decimals is taken. -/
inductive Tie where
  | up
  | even
  deriving DecidableEq

namespace Format

/-- The number of digits before the point of a magnitude, as `Scientific.pointPosition`. -/
def pointPosition (f : Format) (code : Nat) : Int :=
  digitCount (f.units code * Nat.pow 10 decimalRange / Nat.pow 2 f.grain) - decimalRange

/-- The magnitude in units of `10 ^ exponent`, as a fraction. -/
def onGrid (f : Format) (code : Nat) (exponent : Int) : Nat × Nat :=
  (f.units code * Nat.pow 10 (-exponent).toNat, Nat.pow 2 f.grain * Nat.pow 10 exponent.toNat)

/-- The nearer neighbour on a grid, of those that read back. The magnitude stands at the given
    fraction of the grid's unit. -/
def nearerNeighbour (f : Format) (tie : Tie) (code : Nat) (exponent : Int) (position : Nat × Nat) :
    Option Scientific :=
  let (num, den) := position
  let lower := num / den
  let twice := 2 * (num % den)
  let readsBack (c : Nat) : Bool := f.nearestDecimal c exponent = code
  match readsBack lower, readsBack (lower + 1) with
  | false, false => none
  | true, false => some ⟨lower, exponent⟩
  | false, true => some ⟨lower + 1, exponent⟩
  | true, true =>
    -- Both neighbours read back, so the nearer one is taken.
    let goesDown := twice < den ∨ (twice = den ∧ tie = .even ∧ lower % 2 = 0)
    some ⟨if goesDown then lower else lower + 1, exponent⟩

/-- The nearer neighbour on the grid of `count` digits, of those that read back. -/
def shortestWith (f : Format) (tie : Tie) (code count : Nat) : Option Scientific :=
  let exponent := f.pointPosition code - count
  f.nearerNeighbour tie code exponent (f.onGrid code exponent)

/-- The magnitude written out with all its digits. -/
def exactDecimal (f : Format) (code : Nat) : Scientific :=
  ⟨f.units code * Nat.pow 5 f.grain, -(f.grain : Int)⟩

/-- More digits than these no shortest decimal of a format has. -/
def digitLimit : Nat := 17

/-- The shortest decimal that reads back as the magnitude, without zeros at its end. -/
def shortest (f : Format) (tie : Tie) (code : Nat) : Scientific :=
  let candidate := (List.range digitLimit).findSome? fun n => f.shortestWith tie code (n + 1)
  (candidate.getD (f.exactDecimal code)).normalize

end Format

end UnitCheck.Number
