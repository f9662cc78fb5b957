import UnitCheck.Factor.Basic

/-!
  What can go wrong with factors, registries and quantities, and the sentence
  that tells it.
-/

namespace UnitCheck

/-- Why a text is no factor, or no quantity. -/
inductive Malformed where
  | emptyExpression
  | unexpectedCharacter
  | expectedSymbol
  | leadingDigit
  | expectedExponent
  | exponentOutOfRange
  | zeroExponent
  | expectedNumber
  deriving DecidableEq

namespace Malformed

/-- The reason in words. -/
def message : Malformed → String
  | emptyExpression => "empty unit expression"
  | unexpectedCharacter => "unexpected character"
  | expectedSymbol => "expected a unit symbol"
  | leadingDigit => "unit symbol must not start with a digit"
  | expectedExponent => "expected exponent digits"
  | exponentOutOfRange => "exponent out of range"
  | zeroExponent => "exponent must be positive"
  | expectedNumber => "expected a numeric value"

end Malformed

/-- A failure of unit arithmetic, of a registry or of a text about units. -/
inductive UnitError where
  /-- A dimension of this name exists. -/
  | duplicateDimension (name : String)
  /-- A unit of this symbol exists. -/
  | duplicateUnit (unit : String)
  /-- A multiple refers to a unit that does not exist. -/
  | unknownBaseUnit (unit : String)
  /-- A derived dimension is defined over a symbol that is no base unit. -/
  | notFundamentalUnit (symbol : String)
  /-- A power was given that is zero or negative. -/
  | invalidExponent (symbol : String) (power : Int)
  /-- A power passes `maxExponent`. -/
  | exponentOverflow (symbol : String)
  | unknownDimension (name : String)
  | unknownUnit (unit : String)
  /-- The two factors measure different things. -/
  | incompatibleUnits (source target : Factor)
  /-- A conversion that maps all values to one has no inverse. -/
  | zeroConversionFactor
  /-- A text could not be read, from the given byte on. -/
  | malformedText (position : Nat) (reason : Malformed)
  /-- A text is no JSON description of a registry. -/
  | configuration
  deriving DecidableEq

/-- A coarse division of the failures. -/
inductive UnitError.Kind where
  /-- A registration was refused. -/
  | registration
  /-- A name or a unit is not known, or two units do not fit. -/
  | lookup
  /-- A number is out of its range. -/
  | arithmetic
  /-- A text cannot be read. -/
  | input
  deriving DecidableEq

namespace UnitError

/-- The division a failure belongs to. -/
def kind : UnitError → Kind
  | duplicateDimension _ | duplicateUnit _ | unknownBaseUnit _ | notFundamentalUnit _
  | invalidExponent _ _ => .registration
  | unknownDimension _ | unknownUnit _ | incompatibleUnits _ _ => .lookup
  | zeroConversionFactor | exponentOverflow _ => .arithmetic
  | malformedText _ _ | configuration => .input

/-- The failure as a sentence. -/
def message : UnitError → String
  | duplicateDimension name => "physical dimension '" ++ name ++ "' is already registered"
  | duplicateUnit unit => "measurement unit '" ++ unit ++ "' is already registered"
  | unknownBaseUnit unit => "basic measurement unit '" ++ unit ++ "' is not registered"
  | notFundamentalUnit symbol =>
    "reference factor symbol '" ++ symbol ++ "' is not a fundamental measurement unit"
  | invalidExponent symbol power =>
    "exponent of '" ++ symbol ++ "' must be positive, got " ++ toString power
  | exponentOverflow symbol => "exponent of '" ++ symbol ++ "' exceeds the supported maximum"
  | unknownDimension name => "unknown physical dimension '" ++ name ++ "'"
  | unknownUnit unit => "unknown measurement unit '" ++ unit ++ "'"
  | incompatibleUnits source target =>
    "incompatible units: '" ++ source.text ++ "' vs '" ++ target.text ++ "'"
  | zeroConversionFactor => "conversion factor is zero and cannot be inverted"
  | malformedText position reason =>
    "invalid unit expression at byte " ++ toString position ++ ": " ++ reason.message
  | configuration => "registry configuration error"

end UnitError

end UnitCheck
