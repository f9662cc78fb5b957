import UnitCheck.Number.Float

/-!
  Affine conversions `x * factor + offset` between units of one dimension.

  They are defined over any numbers with the needed arithmetic: over floating-point numbers
  they are what the program computes, over rational numbers they are exact. The order of the
  operations is fixed, since rounding depends on it.
-/

namespace UnitCheck

/-- Numbers that conversions are made of. -/
class Scalar (α : Type) extends Add α, Mul α, Div α, Neg α where
  zero : α
  one : α
  /-- Whether a number has no inverse. -/
  isZero : α → Bool

instance : Scalar Float where
  zero := 0.0
  one := 1.0
  isZero x := x == 0.0

instance : Scalar Rat where
  zero := 0
  one := 1
  isZero x := x == 0

/-- The map from `x` to `x * factor + offset`. -/
structure Conversion (α : Type) where
  factor : α
  offset : α
  deriving DecidableEq

namespace Conversion

variable {α : Type} [Scalar α]

/-- The map that changes nothing. -/
def identity : Conversion α := ⟨Scalar.one, Scalar.zero⟩

/-- A map without offset. -/
def scale (factor : α) : Conversion α := ⟨factor, Scalar.zero⟩

/-- The first map, then the second. -/
def compose (first second : Conversion α) : Conversion α :=
  ⟨first.factor * second.factor, first.offset * second.factor + second.offset⟩

/-- The map backwards, if there is one. -/
def inverse? (map : Conversion α) : Option (Conversion α) :=
  if Scalar.isZero map.factor then none
  else some ⟨Scalar.one / map.factor, -map.offset / map.factor⟩

/-- The map `result`, then `base` taken `n` times, by squaring. -/
def iterateAfter (result base : Conversion α) (n : Nat) : Conversion α :=
  if n = 0 then result
  else
    iterateAfter (if n % 2 = 1 then result.compose base else result) (base.compose base) (n / 2)
termination_by n

/-- The map `n` times over. -/
def iterate (map : Conversion α) (n : Nat) : Conversion α := iterateAfter identity map n

/-- The image of a number. -/
def apply (map : Conversion α) (x : α) : α := x * map.factor + map.offset

end Conversion

namespace Conversion

/-- Whether two maps are the same map. Zero equals minus zero, and no NaN equals itself. -/
def same (a b : Conversion Float) : Bool := a.factor == b.factor && a.offset == b.offset

/-- Whether two maps differ by at most `epsilon` in factor and in offset. -/
def approximates (a b : Conversion Float) (epsilon : Float) : Bool :=
  (a.factor - b.factor).abs ≤ epsilon && (a.offset - b.offset).abs ≤ epsilon

/-- The map as a formula. -/
def text (map : Conversion Float) : String :=
  String.ofList
    (['x', ' ', '*', ' '] ++ Number.floatText .plain map.factor ++ [' ', '+', ' '] ++
      Number.floatText .plain map.offset)

end Conversion

end UnitCheck
