import UnitCheck.Registry.Basic

/-!
  Converting values between factors of units.

  A conversion leads from the source to default units of fundamental dimensions and from there
  back to the target. A unit with a power takes its step as often as the power says, so an
  offset is applied once for each time the unit occurs.
-/

namespace UnitCheck.Registry

variable {α : Type}

/-- Whether two factors of units measure the same. -/
def sameDimensions (registry : Registry α) (first second : Factor) : Except UnitError Bool := do
  let first ← registry.dimensionsOfUnits first
  let second ← registry.dimensionsOfUnits second
  return first = second

/-- Whether two factors of dimensions are the same over fundamental dimensions. -/
def equalDimensions (registry : Registry α) (first second : Factor) : Except UnitError Bool := do
  let first ← registry.dimensionsOfDimensions first
  let second ← registry.dimensionsOfDimensions second
  return first = second

variable [Scalar α]

/-- The conversion backwards. -/
def invert (conversion : Conversion α) : Except UnitError (Conversion α) :=
  match conversion.inverse? with
  | some inverse => .ok inverse
  | none => .error .zeroConversionFactor

/-- The conversion from a unit to default units of fundamental dimensions. -/
def unitStep (registry : Registry α) (unit : String) : Except UnitError (Conversion α) := do
  let dimension ← registry.measuredBy unit
  match dimension.multiple? unit with
  | none => throw (.unknownUnit unit)
  | some step =>
    match dimension.composition with
    | some composition => return step.compose composition.conversion
    | none => return step

/-- The conversion from a factor of units to default units of fundamental dimensions. -/
def toBase (registry : Registry α) (units : Factor) : Except UnitError (Conversion α) := do
  let result ← units.numerator.entries.foldlM
    (fun (result : Conversion α) (unit, power) => do
      let step ← registry.unitStep unit
      return result.compose (step.iterate power.val))
    .identity
  units.denominator.entries.foldlM
    (fun result (unit, power) => do
      let step ← invert (← registry.unitStep unit)
      return result.compose (step.iterate power.val))
    result

/-- The conversion between two factors of units, whether or not they measure the same. -/
def conversion (registry : Registry α) (source target : Factor) :
    Except UnitError (Conversion α) := do
  -- Both ways are followed before the second is turned around, which may fail.
  let sourceToBase ← registry.toBase source
  let targetToBase ← registry.toBase target
  return sourceToBase.compose (← invert targetToBase)

/-- A value in other units, which must measure the same. -/
def convert (registry : Registry α) (value : α) (source target : Factor) : Except UnitError α := do
  if ← registry.sameDimensions source target then
    return (← registry.conversion source target).apply value
  else throw (.incompatibleUnits source target)

end UnitCheck.Registry
