import UnitCheck.Expr.Literal
import UnitCheck.FilterError
import UnitCheck.Token.Numeral

/-!
  The value of a numeric literal. The letters at the end of its text select the type; without
  them an integer is an `int` and a real number a `double`.
-/

namespace UnitCheck.Parser

/-- A letter of a suffix. The mark of an exponent is none. -/
def isSuffixLetter (c : Char) : Bool := c.isAlpha && c != 'e' && c != 'E'

/-- The number and the suffix of a numeric literal. -/
def splitSuffix (cs : List Char) : List Char × List Char :=
  ((cs.reverse.dropWhile isSuffixLetter).reverse, (cs.reverse.takeWhile isSuffixLetter).reverse)

/-- The value, if it is below a bound. -/
def below (bound : Nat) (digits : List Char) : Option Nat :=
  let n := Nat.ofDigitChars 10 digits 0
  if n < bound then some n else none

/-- The value of an integer literal. -/
def readInteger (text : String) : Except SyntaxError Literal :=
  let (digits, suffix) := splitSuffix text.toList
  let inRange (value : Option Literal) : Except SyntaxError Literal :=
    match value with
    | some value => .ok value
    | none => .error (.integerRange text)
  if suffix.isEmpty then inRange ((below (UInt32.size / 2) digits).map fun n => .int (.ofNat n))
  else
    match Numeral.integerSuffix? suffix with
    | some .uint => inRange ((below UInt32.size digits).map fun n => .uint (.ofNat n))
    | some .long => inRange ((below (UInt64.size / 2) digits).map fun n => .long (.ofNat n))
    | some .ulong => inRange ((below UInt64.size digits).map fun n => .ulong (.ofNat n))
    | _ => .error (.integerSuffix text)

/-- The value of a real literal. -/
def readReal (text : String) : Except SyntaxError Literal :=
  let (number, suffix) := splitSuffix text.toList
  let type := if suffix.isEmpty then some .double else Numeral.realSuffix? suffix
  let value : Option Literal :=
    match type with
    | some .float => (Number.readFloat32 number).map .float
    | some .decimal => (Number.Decimal.read number).map .decimal
    | some _ => (Number.readFloat number).map .double
    | none => none
  match value with
  | some value => .ok value
  | none => .error (.realNumber text)

/-- The value of a literal token, if the token is one. -/
def literalValue? (token : Token) : Option (Except SyntaxError Literal) :=
  match token.kind with
  | .intLiteral => some (readInteger token.value)
  | .realLiteral => some (readReal token.value)
  | .charLiteral =>
    some <|
      match token.value.toList with
      | c :: _ => .ok (.char c)
      | [] => .error .emptyCharacter
  | .stringLiteral => some (.ok (.string token.value))
  | .keyword .true => some (.ok (.bool true))
  | .keyword .false => some (.ok (.bool false))
  | .keyword .null => some (.ok .null)
  | _ => none

end UnitCheck.Parser
