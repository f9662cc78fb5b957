/-
  Binary floating-point magnitudes in exact arithmetic.

  A format is fixed by the widths of its two fields. The magnitudes of a format, the
  infinite one included, are numbered upwards from zero by the bits that store them without
  the sign, so the next larger magnitude has the next code. `Format.nearest` rounds a
  fraction to the nearest magnitude, of two equally near ones to that with the even code,
  which is the one whose last bit is zero.
-/

namespace UnitCheck.Number

/-- A binary interchange format. -/
structure Format where
  /-- Bits of the stored fraction. -/
  fractionBits : Nat
  /-- Bits of the stored exponent. -/
  exponentBits : Nat
  deriving DecidableEq

namespace Format

/-- Double precision. -/
def binary64 : Format := ⟨52, 11⟩

/-- Single precision. -/
def binary32 : Format := ⟨23, 8⟩

/-- The weight of the last bit of the exponent field in a code. -/
def exponentUnit (f : Format) : Nat := Nat.pow 2 f.fractionBits

/-- The code of the infinite magnitude, the first that denotes no number. -/
def infinity (f : Format) : Nat := (Nat.pow 2 f.exponentBits - 1) * f.exponentUnit

/-- The smallest positive magnitude is `2 ^ (- f.grain)`. -/
def grain (f : Format) : Nat := Nat.pow 2 (f.exponentBits - 1) - 2 + f.fractionBits

/-- How far the spacing at a code exceeds the smallest one, as a power of two. -/
def shift (f : Format) (code : Nat) : Nat := code / f.exponentUnit - 1

/-- The integral significand at a code. -/
def significand (f : Format) (code : Nat) : Nat := code - f.shift code * f.exponentUnit

/-- The magnitude of a finite code is `f.units code / 2 ^ f.grain`. -/
def units (f : Format) (code : Nat) : Nat := f.significand code * Nat.pow 2 (f.shift code)

end Format

/-- The quotient rounded to the nearest integer, a half going to the even one. -/
def roundHalfEven (num den : Nat) : Nat :=
  let q := num / den
  let r := num % den
  if 2 * r < den ∨ (2 * r = den ∧ q % 2 = 0) then q else q + 1

namespace Format

/-- The code of the magnitude nearest to `num / den`. -/
def nearest (f : Format) (num den : Nat) : Nat :=
  let units := num * Nat.pow 2 f.grain
  -- The spacing that leaves one bit more than the fraction field holds; that bit is not stored.
  let shift := (units / den).log2 - f.fractionBits
  min f.infinity (roundHalfEven units (den * Nat.pow 2 shift) + shift * f.exponentUnit)

/-- Decimal numbers of this many digits before the point, or zeros after it, are outside
    every format. -/
def decimalRange : Nat := 400

/-- The number of decimal digits, one for zero. -/
def digitCount (n : Nat) : Nat := (Nat.toDigits 10 n).length

/-- The code of the magnitude nearest to `coefficient * 10 ^ exponent`. -/
def nearestDecimal (f : Format) (coefficient : Nat) (exponent : Int) : Nat :=
  if coefficient = 0 then 0
  else if (decimalRange : Int) < digitCount coefficient + exponent then f.infinity
  else if digitCount coefficient + exponent < -(decimalRange : Int) then 0
  else f.nearest (coefficient * Nat.pow 10 exponent.toNat) (Nat.pow 10 (-exponent).toNat)

end Format

end UnitCheck.Number
