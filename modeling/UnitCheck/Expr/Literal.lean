import UnitCheck.Expr.ValueType
import UnitCheck.Number.Decimal
import UnitCheck.Number.Float
import UnitCheck.Text.Escape

/-!
  Literal values and the way they are written. A suffix tells the numeric types apart.
-/

namespace UnitCheck

/-- The value of a literal. -/
inductive Literal where
  | int (value : Int32)
  | uint (value : UInt32)
  | long (value : Int64)
  | ulong (value : UInt64)
  | double (value : Float)
  | float (value : Float32)
  | decimal (value : Number.Decimal)
  | char (value : Char)
  | string (value : String)
  | bool (value : Bool)
  | null

namespace Literal

/-- The type of the value; `null` has none. -/
def type? : Literal → Option ValueType
  | int _ => some .int
  | uint _ => some .uint
  | long _ => some .long
  | ulong _ => some .ulong
  | double _ => some .double
  | float _ => some .float
  | decimal _ => some .decimal
  | char _ => some .char
  | string _ => some .string
  | bool _ => some .bool
  | null => none

/-- Whether the value is a number, and so may have a unit. -/
def isNumeric : Literal → Bool
  | int _ | uint _ | long _ | ulong _ | double _ | float _ | decimal _ => true
  | char _ | string _ | bool _ | null => false

/-- Equality of values. Floating-point numbers are compared as numbers, so zero equals minus
    zero and no number equals a NaN; decimals are equal when they are the same amount. -/
def same : Literal → Literal → Bool
  | int a, int b => a = b
  | uint a, uint b => a = b
  | long a, long b => a = b
  | ulong a, ulong b => a = b
  | double a, double b => a == b
  | float a, float b => a == b
  | decimal a, decimal b => a.sameAmount b
  | char a, char b => a = b
  | string a, string b => a = b
  | bool a, bool b => a = b
  | null, null => true
  | _, _ => false

/-- An integer with its sign. -/
def intText (n : Int) : List Char :=
  (if n < 0 then ['-'] else []) ++ Nat.toDigits 10 n.natAbs

/-- The literal as it is written. -/
def chars : Literal → List Char
  | int v => intText v.toInt
  | uint v => Nat.toDigits 10 v.toNat ++ ['u']
  | long v => intText v.toInt ++ ['L']
  | ulong v => Nat.toDigits 10 v.toNat ++ ['U', 'L']
  | double v => Number.floatText .literal v
  | float v => Number.float32Text .literal v ++ ['f']
  | decimal v => v.text ++ ['m']
  | char v => Text.quote '\'' [v]
  | string v => Text.quote '"' v.toList
  | bool true => ['t', 'r', 'u', 'e']
  | bool false => ['f', 'a', 'l', 's', 'e']
  | null => ['n', 'u', 'l', 'l']

/-- The literal as it is written. -/
def text (value : Literal) : String := String.ofList value.chars

end Literal

end UnitCheck
